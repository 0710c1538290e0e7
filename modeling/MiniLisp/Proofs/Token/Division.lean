import Mathlib
import MiniLisp.Proofs.Token.Layout

/-!
# Texts taken apart

A text is gaps and tokens in turn, up to its end or to a string literal that nothing completes.
There is exactly one way to take it apart, and taking tokens one after the other finds it.

## Main statements

* `Division.Valid.eq`: two valid divisions of one text are the same.
* `exists_division`: every text has one.
* `scan_eq_division`: the tokens and the fault that taking tokens yields are those of the division.
-/

namespace MiniLisp
namespace Token

/-!
## All tokens of a text
-/

/-- The tokens of a text up to its end or its first fault, and that fault. -/
def scan (text : List Char) : List Token × Option Fault.Cause :=
  match _taken : next text with
  | (.error cause, _) => ([], some cause)
  | (.ok none, _) => ([], none)
  | (.ok (some token), rest) =>
      let (tokens, cause) := scan rest
      (token :: tokens, cause)
termination_by text.length
decreasing_by exact next_shorter _taken

theorem scan_eq (text : List Char) :
    scan text =
      match next text with
      | (.error cause, _) => ([], some cause)
      | (.ok none, _) => ([], none)
      | (.ok (some token), rest) => (token :: (scan rest).1, (scan rest).2) := by
  rw [scan]
  split <;> rename_i heq <;> rw [heq]

theorem scan_of_token {text rest : List Char} {token : Token}
    (h : next text = (.ok (some token), rest)) :
    scan text = (token :: (scan rest).1, (scan rest).2) := by
  rw [scan_eq, h]

theorem scan_of_end {text rest : List Char} (h : next text = (.ok none, rest)) :
    scan text = ([], none) := by
  rw [scan_eq, h]

theorem scan_of_fault {text rest : List Char} {cause : Fault.Cause}
    (h : next text = (.error cause, rest)) : scan text = ([], some cause) := by
  rw [scan_eq, h]

/-!
## Divisions
-/

/-- A text taken apart: a gap before each token, a last gap, and what is left after it. -/
inductive Division where
  | ending (gap left : List Char)
  | cons (gap : List Char) (token : Token) (after : Division)
  deriving DecidableEq, Repr

namespace Division

def text : Division → List Char
  | .ending gap left => gap ++ left
  | .cons gap token after => gap ++ (token.text ++ after.text)

def tokens : Division → List Token
  | .ending _ _ => []
  | .cons _ token after => token :: after.tokens

def left : Division → List Char
  | .ending _ left => left
  | .cons _ _ after => after.left

/-- Every gap is one, every token may stand where it does, and nothing is left but a string literal
that is not completed. -/
def Valid : Division → Prop
  | .ending gap left => Gap gap left ∧ (left = [] ∨ Unterminated left)
  | .cons gap token after =>
      Gap gap (token.text ++ after.text) ∧ Precedes token after.text ∧ after.Valid

end Division

/-!
## Taking a divided text apart
-/

theorem next_gap_append {gap rest : List Char} (h : Gap gap rest) :
    next (gap ++ rest) = next rest :=
  next_eq_of_skipGap_eq (skipGap_gap_append h)

theorem outside_of_ending {gap left : List Char} (h : (Division.ending gap left).Valid) :
    Outside left := by
  rcases h with ⟨_, rfl | hleft⟩
  · intro c hc
    cases hc
  · exact hleft.outside

theorem next_ending {gap left : List Char} (h : (Division.ending gap left).Valid) :
    next (gap ++ left) = (.ok none, []) ∧ left = [] ∨
      next (gap ++ left) = (.error .unterminatedString, left) ∧ Unterminated left := by
  rw [next_gap_append h.1]
  rcases h.2 with rfl | hleft
  · exact Or.inl ⟨rfl, rfl⟩
  · exact Or.inr ⟨next_of_unterminated hleft, hleft⟩

theorem next_token {gap rest : List Char} {token : Token} (hgap : Gap gap (token.text ++ rest))
    (htoken : Precedes token rest) :
    next (gap ++ (token.text ++ rest)) = (.ok (some token), rest) := by
  rw [next_gap_append hgap, htoken.next_text_append]

theorem next_cons {gap : List Char} {token : Token} {after : Division}
    (h : (Division.cons gap token after).Valid) :
    next (gap ++ (token.text ++ after.text)) = (.ok (some token), after.text) :=
  next_token h.1 h.2.1

theorem Division.Valid.gap_append {gap : List Char} {token : Token} {after : Division}
    (h : (Division.cons gap token after).Valid) (more : List Char) :
    Gap gap (token.text ++ (after.text ++ more)) := by
  rw [← List.append_assoc]
  exact h.1.append (List.append_ne_nil_of_left_ne_nil h.2.1.text_ne_nil _) more

/-- Two valid divisions of one text are the same. -/
theorem Division.Valid.eq {d e : Division} (hd : d.Valid) (he : e.Valid)
    (htext : e.text = d.text) : e = d := by
  induction d generalizing e with
  | ending gap left =>
      cases e with
      | ending gap' left' =>
          have hleft : left' = left := calc
            left' = skipGap (gap' ++ left') := (skipGap_append he.1 (outside_of_ending he)).symm
            _ = skipGap (gap ++ left) := congrArg skipGap htext
            _ = left := skipGap_append hd.1 (outside_of_ending hd)
          subst hleft
          rw [List.append_cancel_right htext]
      | cons gap' token after =>
          have hnext := next_cons he
          simp only [Division.text] at htext
          rw [htext] at hnext
          rcases next_ending hd with ⟨h, -⟩ | ⟨h, -⟩ <;> cases h.symm.trans hnext
  | cons gap token after ih =>
      have hnext := next_cons hd
      cases e with
      | ending gap' left =>
          have hnext' := next_ending he
          simp only [Division.text] at htext
          rw [htext, hnext] at hnext'
          rcases hnext' with ⟨h, -⟩ | ⟨h, -⟩ <;> cases h
      | cons gap' token' after' =>
          have hnext' := next_cons he
          simp only [Division.text] at htext
          rw [htext, hnext] at hnext'
          simp only [Prod.mk.injEq, Except.ok.injEq, Option.some.injEq] at hnext'
          rcases hnext' with ⟨rfl, hafter⟩
          rw [ih hd.2.2 he.2.2 hafter.symm] at htext ⊢
          rw [List.append_cancel_right htext]

/-- Every text has a valid division. -/
theorem exists_division (text : List Char) : ∃ d : Division, d.Valid ∧ d.text = text := by
  induction hlength : text.length using Nat.strongRecOn generalizing text with
  | ind n ih =>
      rcases (exists_gap_skipFrom text).1 with ⟨gap, hgap, htext⟩
      change Gap gap (skipGap text) at hgap
      change gap ++ skipGap text = text at htext
      rcases next_cases text with ⟨hleft, -⟩ | ⟨token, rest, htoken, hleft, hnext⟩ | ⟨hleft, -⟩
      · rw [hleft] at hgap htext
        exact ⟨.ending gap [], ⟨hgap, Or.inl rfl⟩, htext⟩
      · rcases ih rest.length (hlength ▸ next_shorter hnext) rest rfl with ⟨after, hafter, rfl⟩
        rw [hleft] at hgap htext
        exact ⟨.cons gap token after, ⟨hgap, htoken, hafter⟩, htext⟩
      · exact ⟨.ending gap (skipGap text), ⟨hgap, Or.inr hleft⟩, htext⟩

theorem Division.Valid.scan_text {d : Division} (h : d.Valid) :
    (scan d.text).1 = d.tokens ∧
      ∀ cause, (scan d.text).2 = some cause ↔
        cause = .unterminatedString ∧ Unterminated d.left := by
  induction d with
  | ending gap left =>
      rw [Division.text]
      rcases next_ending h with ⟨hnext, rfl⟩ | ⟨hnext, hleft⟩
      · rw [scan_of_end hnext]
        refine ⟨rfl, fun cause => ⟨?_, ?_⟩⟩
        · intro hcause
          cases hcause
        · rintro ⟨-, hleft⟩
          exact absurd rfl hleft.ne_nil
      · rw [scan_of_fault hnext]
        refine ⟨rfl, fun cause => ⟨?_, ?_⟩⟩
        · rintro ⟨⟩
          exact ⟨rfl, hleft⟩
        · rintro ⟨rfl, -⟩
          rfl
  | cons gap token after ih =>
      rcases ih h.2.2 with ⟨htokens, hfault⟩
      rw [Division.text, scan_of_token (next_cons h)]
      exact ⟨congrArg (token :: ·) htokens, hfault⟩

/-- Taking tokens until the end or a fault takes a text apart into gaps and tokens, in the one way
there is.  The only fault is a string literal that nothing completes. -/
theorem scan_eq_division (text : List Char) :
    ∃ d : Division, d.Valid ∧ d.text = text ∧
      (∀ e : Division, e.Valid → e.text = text → e = d) ∧
      (scan text).1 = d.tokens ∧
      ((scan text).2.isSome = true ↔ Unterminated d.left) ∧
      ∀ cause, (scan text).2 = some cause →
        cause.kind = .malformed ∧ cause.message = "Unterminated string literal" := by
  rcases exists_division text with ⟨d, hd, rfl⟩
  rcases hd.scan_text with ⟨htokens, hfault⟩
  refine ⟨d, hd, rfl, fun e he htext => hd.eq he htext, htokens, ?_, ?_⟩
  · rw [Option.isSome_iff_exists]
    constructor
    · rintro ⟨cause, hcause⟩
      exact ((hfault cause).mp hcause).2
    · intro hleft
      exact ⟨_, (hfault .unterminatedString).mpr ⟨rfl, hleft⟩⟩
  · intro cause hcause
    rcases (hfault cause).mp hcause with ⟨rfl, -⟩
    exact ⟨rfl, rfl⟩

/-- A semicolon in a string begins no comment, and a comment may hold a quote. -/
example :
    scan "ab\"c;\";\"\n\x27\"\\\"".toList =
      ([.atom "ab".toList, .atom "\"c;\"".toList, .quote], some .unterminatedString) := by
  cbv

end Token
end MiniLisp
