import MiniLisp.Fault
import MiniLisp.Text.Blank

/-!
# Tokens

A text is gaps and tokens in turn.  A gap is made of blanks and comments; a comment runs from a
semicolon through the next line feed or to the end of the text.  A token is a parenthesis, a quote
mark, a string literal, or a longest run of other characters.

## Main statement

* `next_shorter`: taking a token leaves a shorter text.
-/

namespace MiniLisp

/-- A token; a string literal is an atom that keeps its quotes. -/
inductive Token where
  | opening
  | closing
  | quote
  | atom (text : List Char)
  deriving DecidableEq, Repr

namespace Token

def isDelimiter (c : Char) : Bool :=
  Text.isBlank c || c = '(' || c = ')' || c = '\x27' || c = '"' || c = ';'

/-- Drops a gap from a text, or a comment first and then a gap. -/
def skipFrom (inComment : Bool) : List Char → List Char
  | [] => []
  | c :: rest =>
      if inComment then
        skipFrom (c ≠ '\n') rest
      else if Text.isBlank c then
        skipFrom false rest
      else if c = ';' then
        skipFrom true rest
      else
        c :: rest

def skipGap (text : List Char) : List Char :=
  skipFrom false text

/-- The rest of a string literal after its opening quote, through its closing quote, and what
follows it.  A backslash and the character after it belong together. -/
def takeLiteral? : List Char → Option (List Char × List Char)
  | [] => none
  | '"' :: rest => some (['"'], rest)
  | '\\' :: [] => none
  | '\\' :: c :: rest => (takeLiteral? rest).map fun (taken, left) => ('\\' :: c :: taken, left)
  | c :: rest => (takeLiteral? rest).map fun (taken, left) => (c :: taken, left)

/-- Takes the next token, or nothing at the end; the text that is left comes second.  On a fault
the text is left where the fault is. -/
def next (text : List Char) : Except Fault.Cause (Option Token) × List Char :=
  match skipGap text with
  | [] => (.ok none, [])
  | c :: rest =>
      if c = '(' then
        (.ok (some .opening), rest)
      else if c = ')' then
        (.ok (some .closing), rest)
      else if c = '\x27' then
        (.ok (some .quote), rest)
      else if c = '"' then
        match takeLiteral? rest with
        | some (taken, left) => (.ok (some (.atom ('"' :: taken))), left)
        | none => (.error .unterminatedString, c :: rest)
      else if isDelimiter c then
        (.error (.unexpectedCharacter c), c :: rest)
      else
        (.ok (some (.atom (c :: rest.takeWhile fun x => !isDelimiter x))),
          rest.dropWhile fun x => !isDelimiter x)

/-- Whether nothing but a gap is left; the text that is left comes second. -/
def atEnd (text : List Char) : Bool × List Char :=
  let left := skipGap text
  (left.isEmpty, left)

/-! ## Progress -/

theorem length_skipFrom_le (inComment : Bool) (text : List Char) :
    (skipFrom inComment text).length ≤ text.length := by
  induction text generalizing inComment with
  | nil => simp [skipFrom]
  | cons c rest ih =>
      unfold skipFrom
      split
      · exact Nat.le_succ_of_le (ih _)
      · split
        · exact Nat.le_succ_of_le (ih _)
        · split
          · exact Nat.le_succ_of_le (ih _)
          · exact Nat.le_refl _

theorem append_of_takeLiteral? {text taken left : List Char}
    (h : takeLiteral? text = some (taken, left)) : taken ++ left = text := by
  fun_induction takeLiteral? text generalizing taken left with
  | case1 => simp at h
  | case2 rest =>
      simp only [Option.some.injEq, Prod.mk.injEq] at h
      obtain ⟨rfl, rfl⟩ := h
      rfl
  | case3 => simp at h
  | case4 c rest ih =>
      simp only [Option.map_eq_some_iff, Prod.exists, Prod.mk.injEq] at h
      obtain ⟨t, l, h, rfl, rfl⟩ := h
      simp [ih h]
  | case5 c rest _ _ _ ih =>
      simp only [Option.map_eq_some_iff, Prod.exists, Prod.mk.injEq] at h
      obtain ⟨t, l, h, rfl, rfl⟩ := h
      simp [ih h]

theorem length_dropWhile_le (p : Char → Bool) (text : List Char) :
    (text.dropWhile p).length ≤ text.length :=
  (List.dropWhile_sublist p).length_le

/-- Taking a token leaves a shorter text. -/
theorem next_shorter {text rest : List Char} {token : Token}
    (h : next text = (.ok (some token), rest)) : rest.length < text.length := by
  have hskip := length_skipFrom_le false text
  unfold next skipGap at h
  generalize skipFrom false text = left at h hskip
  match left with
  | [] => simp at h
  | c :: tail =>
      simp only [List.length_cons] at hskip
      have hdrop := length_dropWhile_le (fun x => !isDelimiter x) tail
      simp only at h
      split at h
      · simp only [Prod.mk.injEq] at h
        obtain ⟨-, rfl⟩ := h
        omega
      · split at h
        · simp only [Prod.mk.injEq] at h
          obtain ⟨-, rfl⟩ := h
          omega
        · split at h
          · simp only [Prod.mk.injEq] at h
            obtain ⟨-, rfl⟩ := h
            omega
          · split at h
            · split at h
              · rename_i taken left hlit
                simp only [Prod.mk.injEq] at h
                obtain ⟨-, rfl⟩ := h
                have := congrArg List.length (append_of_takeLiteral? hlit)
                simp only [List.length_append] at this
                omega
              · simp at h
            · split at h
              · simp at h
              · simp only [Prod.mk.injEq] at h
                obtain ⟨-, rfl⟩ := h
                omega

end Token
end MiniLisp
