import Mathlib
import MiniLisp.Proofs.Token.Atom

/-!
# The layout of a text

What taking a token does, said without the loops that do it: which texts are gaps, which
characters make a string literal, and before which texts a token may stand.

## Main statements

* `skipGap_append`: a gap is skipped up to where no gap goes on.
* `next_cases`: the three answers of `next`, each with what the text left after the gap looks like.
-/

namespace MiniLisp
namespace Token

/-!
## Gaps
-/

/-- The first text is a gap before the second: blanks and comments.  Only a comment at the end of
everything may lack its line feed. -/
inductive Gap : List Char → List Char → Prop where
  | empty (rest : List Char) : Gap [] rest
  | blank {c : Char} {gap rest : List Char} :
      Text.isBlank c = true → Gap gap rest → Gap (c :: gap) rest
  | comment {body gap rest : List Char} :
      '\n' ∉ body → Gap gap rest → Gap (';' :: (body ++ '\n' :: gap)) rest
  | lastComment {body : List Char} :
      '\n' ∉ body → Gap (';' :: body) []

/-- A gap whatever follows it: blanks, and comments with their line feeds. -/
def Spacing (gap : List Char) : Prop :=
  ∀ rest, Gap gap rest

def Outside (text : List Char) : Prop :=
  ∀ c ∈ text.head?, Text.isBlank c = false ∧ c ≠ ';'

theorem Gap.append {gap rest : List Char} (h : Gap gap rest) (hrest : rest ≠ [])
    (more : List Char) : Gap gap (rest ++ more) := by
  induction h with
  | empty rest => exact .empty _
  | blank hc _ ih => exact .blank hc (ih hrest)
  | comment hbody _ ih => exact .comment hbody (ih hrest)
  | lastComment => exact absurd rfl hrest

theorem Gap.delimited {gap rest : List Char} (h : Gap gap rest) (hne : gap ≠ []) :
    Delimited (gap ++ rest) := by
  cases h with
  | empty => exact absurd rfl hne
  | blank hc => exact delimited_cons (by simp [isDelimiter, hc]) _
  | comment | lastComment => exact delimited_cons (by decide) _

theorem skipFrom_comment {body : List Char} (h : '\n' ∉ body) (text : List Char) :
    skipFrom true (body ++ '\n' :: text) = skipFrom false text := by
  induction body with
  | nil => rfl
  | cons c body ih =>
      have hne : c ≠ '\n' := (List.ne_of_not_mem_cons h).symm
      simpa [skipFrom, hne] using ih (List.not_mem_of_not_mem_cons h)

theorem skipFrom_lastComment {body : List Char} (h : '\n' ∉ body) : skipFrom true body = [] := by
  induction body with
  | nil => rfl
  | cons c body ih =>
      have hne : c ≠ '\n' := (List.ne_of_not_mem_cons h).symm
      simpa [skipFrom, hne] using ih (List.not_mem_of_not_mem_cons h)

theorem skipGap_blank {c : Char} (h : Text.isBlank c = true) (text : List Char) :
    skipGap (c :: text) = skipGap text := by
  simp [skipGap, skipFrom, h]

theorem skipGap_semicolon (text : List Char) : skipGap (';' :: text) = skipFrom true text := by
  simp [skipGap, skipFrom, show Text.isBlank ';' = false by decide]

theorem skipGap_of_outside {text : List Char} (h : Outside text) : skipGap text = text := by
  cases text with
  | nil => rfl
  | cons c rest =>
      rcases h c rfl with ⟨hblank, hcomment⟩
      exact skipGap_of_not_blank hblank hcomment rest

theorem skipGap_gap_append {gap rest : List Char} (h : Gap gap rest) :
    skipGap (gap ++ rest) = skipGap rest := by
  induction h with
  | empty rest => rfl
  | blank hc _ ih =>
      rw [List.cons_append, skipGap_blank hc]
      exact ih
  | comment hbody _ ih =>
      rw [List.cons_append, List.append_assoc, List.cons_append, skipGap_semicolon,
        skipFrom_comment hbody]
      exact ih
  | lastComment hbody =>
      rw [List.append_nil, skipGap_semicolon]
      exact skipFrom_lastComment hbody

theorem skipGap_append {gap rest : List Char} (h : Gap gap rest) (hrest : Outside rest) :
    skipGap (gap ++ rest) = rest := by
  rw [skipGap_gap_append h, skipGap_of_outside hrest]

theorem Gap.lengthen {c : Char} {gap rest : List Char} (h : Gap (';' :: gap) rest)
    (hc : c ≠ '\n') : Gap (';' :: c :: gap) rest := by
  have hmem : ∀ body : List Char, '\n' ∉ body → '\n' ∉ c :: body := by
    intro body hbody
    exact List.not_mem_cons_of_ne_of_not_mem hc.symm hbody
  cases h with
  | blank hblank => exact absurd hblank (by decide)
  | comment hbody hgap => exact .comment (hmem _ hbody) hgap
  | lastComment hbody => exact .lastComment (hmem _ hbody)

theorem exists_gap_skipFrom (text : List Char) :
    (∃ gap, Gap gap (skipFrom false text) ∧ gap ++ skipFrom false text = text) ∧
      ∃ gap, Gap (';' :: gap) (skipFrom true text) ∧ gap ++ skipFrom true text = text := by
  induction text with
  | nil => exact ⟨⟨[], .empty [], rfl⟩, [], .lastComment List.not_mem_nil, rfl⟩
  | cons c text ih =>
      rcases ih with ⟨⟨gap, hgap, heq⟩, comment, hcomment, hceq⟩
      constructor
      · by_cases hblank : Text.isBlank c = true
        · have hskip : skipFrom false (c :: text) = skipFrom false text := by
            simp [skipFrom, hblank]
          rw [hskip]
          exact ⟨c :: gap, .blank hblank hgap, congrArg (c :: ·) heq⟩
        · by_cases hc : c = ';'
          · subst hc
            have hskip : skipFrom false (';' :: text) = skipFrom true text :=
              skipGap_semicolon text
            rw [hskip]
            exact ⟨';' :: comment, hcomment, congrArg (';' :: ·) hceq⟩
          · have hskip : skipFrom false (c :: text) = c :: text := by
              simp [skipFrom, hblank, hc]
            rw [hskip]
            exact ⟨[], .empty _, rfl⟩
      · by_cases hc : c = '\n'
        · subst hc
          have hskip : skipFrom true ('\n' :: text) = skipFrom false text := rfl
          rw [hskip]
          refine ⟨'\n' :: gap, ?_, congrArg ('\n' :: ·) heq⟩
          exact @Gap.comment [] gap _ List.not_mem_nil hgap
        · have hskip : skipFrom true (c :: text) = skipFrom true text := by
            simp [skipFrom, hc]
          rw [hskip]
          exact ⟨c :: comment, hcomment.lengthen hc, congrArg (c :: ·) hceq⟩

theorem outside_skipFrom (inComment : Bool) (text : List Char) :
    Outside (skipFrom inComment text) := by
  induction text generalizing inComment with
  | nil =>
      intro c hc
      cases hc
  | cons c text ih =>
      unfold skipFrom
      split
      · exact ih _
      split
      · exact ih _
      split
      · exact ih _
      · rename_i hblank hcomment
        intro d hd
        cases hd
        exact ⟨Bool.not_eq_true _ ▸ hblank, hcomment⟩

/-!
## String literals
-/

/-- What may stand between the quotes of a string literal: backslashes, each with the character
after it, and characters that are neither a backslash nor a quote. -/
inductive LiteralBody : List Char → Prop where
  | empty : LiteralBody []
  | escaped (c : Char) {body : List Char} : LiteralBody body → LiteralBody ('\\' :: c :: body)
  | plain {c : Char} {body : List Char} :
      c ≠ '\\' → c ≠ '"' → LiteralBody body → LiteralBody (c :: body)

def literal (body : List Char) : List Char :=
  '"' :: (body ++ ['"'])

theorem takeLiteral?_body {body : List Char} (h : LiteralBody body) (rest : List Char) :
    takeLiteral? (body ++ '"' :: rest) = some (body ++ ['"'], rest) := by
  induction h with
  | empty => rfl
  | escaped c _ ih => simp [takeLiteral?, ih]
  | @plain c body hescape hquote _ ih =>
      rw [List.cons_append, takeLiteral?, ih]
      · rfl
      · exact hquote
      · exact fun hc => absurd hc hescape
      · exact fun d r hc => absurd hc hescape

theorem exists_body_of_takeLiteral? {text taken left : List Char}
    (h : takeLiteral? text = some (taken, left)) :
    ∃ body, LiteralBody body ∧ taken = body ++ ['"'] := by
  fun_induction takeLiteral? text generalizing taken left with
  | case1 => cases h
  | case2 =>
      cases h
      exact ⟨[], .empty, rfl⟩
  | case3 => cases h
  | case4 c tail ih =>
      rcases Option.map_eq_some_iff.mp h with ⟨⟨t, l⟩, ht, heq⟩
      cases heq
      rcases ih ht with ⟨body, hbody, rfl⟩
      exact ⟨'\\' :: c :: body, .escaped c hbody, rfl⟩
  | case5 c tail hquote _ hescape ih =>
      rcases Option.map_eq_some_iff.mp h with ⟨⟨t, l⟩, ht, heq⟩
      cases heq
      rcases ih ht with ⟨body, hbody, rfl⟩
      have hc : c ≠ '\\' := by
        intro heq
        subst heq
        cases tail with
        | nil => cases ht
        | cons d tail => exact hescape d tail rfl rfl
      exact ⟨c :: body, .plain hc hquote hbody, rfl⟩

theorem isLiteral_literal {body : List Char} (h : LiteralBody body) : IsLiteral (literal body) :=
  ⟨body ++ ['"'], rfl, takeLiteral?_body h []⟩

/-- A string literal begins here that is not completed. -/
def Unterminated (text : List Char) : Prop :=
  text.head? = some '"' ∧ ∀ body, LiteralBody body → ¬ literal body <+: text

theorem unterminated_of_takeLiteral? {rest : List Char} (h : takeLiteral? rest = none) :
    Unterminated ('"' :: rest) := by
  refine ⟨rfl, ?_⟩
  rintro body hbody ⟨tail, htail⟩
  have hrest : rest = body ++ '"' :: tail := by
    simpa [literal] using htail.symm
  rw [hrest, takeLiteral?_body hbody] at h
  cases h

theorem Unterminated.ne_nil {text : List Char} (h : Unterminated text) : text ≠ [] := by
  rintro rfl
  cases h.1

theorem Unterminated.outside {text : List Char} (h : Unterminated text) : Outside text := by
  intro c hc
  rw [h.1] at hc
  cases hc
  decide

/-!
## Where tokens stand
-/

def text : Token → List Char
  | .opening => ['(']
  | .closing => [')']
  | .quote => ['\x27']
  | .atom text => text

/-- A token may stand before a text.  A run of ordinary characters is one token, so that it goes
on as long as it can. -/
inductive Precedes : Token → List Char → Prop where
  | opening (rest : List Char) : Precedes .opening rest
  | closing (rest : List Char) : Precedes .closing rest
  | quote (rest : List Char) : Precedes .quote rest
  | literal {body : List Char} (rest : List Char) :
      LiteralBody body → Precedes (.atom (literal body)) rest
  | run {run rest : List Char} : IsRun run → Delimited rest → Precedes (.atom run) rest

theorem Precedes.text_ne_nil {token : Token} {rest : List Char} (h : Precedes token rest) :
    token.text ≠ [] := by
  cases h with
  | opening | closing | quote | literal => exact List.cons_ne_nil _ _
  | run hrun => exact hrun.1

/-!
## The answers of `next`
-/

theorem next_eq_of_skipGap_eq {left right : List Char} (h : skipGap left = skipGap right) :
    next left = next right := by
  rw [next, h]
  rfl

theorem next_skipGap (text : List Char) : next (skipGap text) = next text :=
  next_eq_of_skipGap_eq (skipGap_of_outside (outside_skipFrom false text))

theorem Precedes.next_text_append {token : Token} {rest : List Char} (h : Precedes token rest) :
    next (token.text ++ rest) = (.ok (some token), rest) := by
  cases h with
  | opening => exact next_opening rest
  | closing => exact next_closing rest
  | quote => exact next_quote rest
  | literal _ hbody => exact next_literal (isLiteral_literal hbody) rest
  | run hrun hrest => exact next_run hrun hrest

theorem next_of_unterminated {text : List Char} (h : Unterminated text) :
    next text = (.error .unterminatedString, text) := by
  have hgap := skipGap_of_outside h.outside
  rcases h with ⟨hhead, hbody⟩
  cases text with
  | nil => cases hhead
  | cons c rest =>
      cases hhead
      rw [next, hgap]
      cases hliteral : takeLiteral? rest with
      | none => simp [hliteral]
      | some answer =>
          rcases answer with ⟨taken, left⟩
          rcases exists_body_of_takeLiteral? hliteral with ⟨body, hb, rfl⟩
          have heq := append_of_takeLiteral? hliteral
          exact absurd ⟨left, congrArg ('"' :: ·) heq⟩ (hbody body hb)

theorem delimited_dropWhile (text : List Char) :
    Delimited (text.dropWhile fun x => !isDelimiter x) := by
  intro c hc
  have hhead := List.head?_dropWhile_not (fun x => !isDelimiter x) text
  rw [Option.mem_def.mp hc] at hhead
  simpa using hhead

theorem IsRun.append_takeWhile {run : List Char} (h : IsRun run) (more : List Char) :
    IsRun (run ++ more.takeWhile fun x => !isDelimiter x) := by
  refine ⟨List.append_ne_nil_of_left_ne_nil h.1 _, ?_⟩
  intro c hc
  rcases List.mem_append.mp hc with hc | hc
  · exact h.2 c hc
  · simpa using List.mem_takeWhile_imp hc

/-- The three answers of `next`, each with the text left after the gap. -/
theorem next_cases (text : List Char) :
    (skipGap text = [] ∧ next text = (.ok none, [])) ∨
      (∃ token rest, Precedes token rest ∧ skipGap text = token.text ++ rest ∧
        next text = (.ok (some token), rest)) ∨
      Unterminated (skipGap text) ∧ next text = (.error .unterminatedString, skipGap text) := by
  have houtside : Outside (skipGap text) := outside_skipFrom false text
  rw [← next_skipGap]
  cases hleft : skipGap text with
  | nil => exact Or.inl ⟨rfl, rfl⟩
  | cons c rest =>
      rw [hleft] at houtside
      have htake : ∀ token left, Precedes token left → c :: rest = token.text ++ left →
          ∃ token left, Precedes token left ∧ c :: rest = token.text ++ left ∧
            next (c :: rest) = (.ok (some token), left) := by
        intro token left htoken heq
        exact ⟨token, left, htoken, heq, heq ▸ htoken.next_text_append⟩
      right
      by_cases hdelimiter : isDelimiter c = true
      · simp only [isDelimiter, houtside c rfl, Bool.false_or, Bool.or_eq_true,
          decide_eq_true_eq, or_false] at hdelimiter
        rcases hdelimiter with ((hc | hc) | hc) | hc
        · exact Or.inl (htake .opening rest (.opening rest) (hc ▸ rfl))
        · exact Or.inl (htake .closing rest (.closing rest) (hc ▸ rfl))
        · exact Or.inl (htake .quote rest (.quote rest) (hc ▸ rfl))
        · subst hc
          cases hliteral : takeLiteral? rest with
          | none =>
              have hopen := unterminated_of_takeLiteral? hliteral
              exact Or.inr ⟨hopen, next_of_unterminated hopen⟩
          | some answer =>
              rcases answer with ⟨taken, left⟩
              rcases exists_body_of_takeLiteral? hliteral with ⟨body, hbody, rfl⟩
              have heq := append_of_takeLiteral? hliteral
              exact Or.inl (htake _ left (.literal left hbody) (congrArg ('"' :: ·) heq.symm))
      · have hrun : IsRun [c] := by
          refine ⟨List.cons_ne_nil _ _, ?_⟩
          intro d hd
          rw [List.mem_singleton.mp hd]
          exact Bool.not_eq_true _ ▸ hdelimiter
        have hlonger := hrun.append_takeWhile rest
        refine Or.inl (htake _ _ (.run hlonger (delimited_dropWhile rest)) ?_)
        exact congrArg (c :: ·) List.takeWhile_append_dropWhile.symm

/-!
## What `next` leaves
-/

theorem next_isSuffix (text : List Char) : (next text).2 <:+ text := by
  have hgap : skipGap text <:+ text := by
    rcases (exists_gap_skipFrom text).1 with ⟨gap, -, hgap⟩
    exact ⟨gap, hgap⟩
  rcases next_cases text with ⟨-, hnext⟩ | ⟨token, rest, -, hleft, hnext⟩ | ⟨-, hnext⟩
  · rw [hnext]
    exact List.nil_suffix
  · rw [hnext]
    rw [hleft] at hgap
    exact (List.suffix_append token.text rest).trans hgap
  · rw [hnext]
    exact hgap

theorem eq_nil_of_next_end {text rest : List Char} (h : next text = (.ok none, rest)) :
    rest = [] := by
  rcases next_cases text with ⟨-, hnext⟩ | ⟨token, left, -, -, hnext⟩ | ⟨-, hnext⟩
  · exact (Prod.mk.inj (h.symm.trans hnext)).2
  · cases h.symm.trans hnext
  · cases h.symm.trans hnext

theorem unterminated_of_next_fault {text rest : List Char} {cause : Fault.Cause}
    (h : next text = (.error cause, rest)) :
    cause = .unterminatedString ∧ Unterminated rest := by
  rcases next_cases text with ⟨-, hnext⟩ | ⟨token, left, -, -, hnext⟩ | ⟨hleft, hnext⟩
  · cases h.symm.trans hnext
  · cases h.symm.trans hnext
  · cases h.symm.trans hnext
    exact ⟨rfl, hleft⟩

end Token
end MiniLisp
