import Mathlib
import MiniLisp.Proofs.Token.Division

/-!
# Calls in any order

A text is taken apart by two calls: one takes the next token, and one says whether a token is still
to come.  Both drop the gap that the text starts with, so that each moves the place where the other
goes on.  Still, which token comes next depends only on how many have been taken.

## Main statements

* `tokenAnswers_answers`: whatever calls stand between them, the calls for a token get the answers
  of the text one after the other.
* `atEnd_eq_true_iff`: a text is at its end if the next call for a token says so.
* `calls_for_end_disturb_nothing`: what this comes to for every order of calls.
-/

namespace MiniLisp
namespace Token

/-!
## Calls and answers
-/

inductive Call where
  | next
  | atEnd
  deriving DecidableEq, Repr

inductive Answer where
  | token (answer : Except Fault.Cause (Option Token))
  | ended (answer : Bool)
  deriving DecidableEq, Repr

def Call.answer (text : List Char) : Call → Answer × List Char
  | .next => (.token (Token.next text).1, (Token.next text).2)
  | .atEnd => (.ended (Token.atEnd text).1, (Token.atEnd text).2)

def answers (text : List Char) : List Call → List Answer
  | [] => []
  | call :: calls => (call.answer text).1 :: answers (call.answer text).2 calls

def textAfter (text : List Char) : List Call → List Char
  | [] => text
  | call :: calls => textAfter (call.answer text).2 calls

def Answer.token? : Answer → Option (Except Fault.Cause (Option Token))
  | .token answer => some answer
  | .ended _ => none

def tokenAnswers (answers : List Answer) : List (Except Fault.Cause (Option Token)) :=
  answers.filterMap Answer.token?

theorem answers_append (text : List Char) (calls more : List Call) :
    answers text (calls ++ more) = answers text calls ++ answers (textAfter text calls) more := by
  induction calls generalizing text with
  | nil => rfl
  | cons call calls ih => exact congrArg (_ :: ·) (ih (call.answer text).2)

/-!
## One call
-/

theorem next_atEnd (text : List Char) : next (atEnd text).2 = next text :=
  next_skipGap text

/-- A text is at its end if the next call for a token says so. -/
theorem atEnd_eq_true_iff (text : List Char) :
    (atEnd text).1 = true ↔ (next text).1 = .ok none := by
  rw [atEnd, List.isEmpty_iff]
  rcases next_cases text with
    ⟨hleft, hnext⟩ | ⟨token, rest, htoken, hleft, hnext⟩ | ⟨hleft, hnext⟩
  · simp [hleft, hnext]
  · simp [hleft, hnext, htoken.text_ne_nil]
  · simp [hnext, hleft.ne_nil]

theorem next_next {text : List Char} (h : ∀ token, (next text).1 ≠ .ok (some token)) :
    next (next text).2 = next text := by
  rcases hnext : next text with ⟨cause | _ | token, rest⟩
  · rcases unterminated_of_next_fault hnext with ⟨rfl, hrest⟩
    exact next_of_unterminated hrest
  · cases eq_nil_of_next_end hnext
    rfl
  · exact absurd (congrArg Prod.fst hnext) (h token)

theorem scan_congr {left right : List Char} (h : next left = next right) :
    scan left = scan right := by
  rw [scan_eq left, scan_eq right, h]

/-!
## The answers of a text
-/

/-- What the call for a token is answered after this many others: a token of the text, or after
the last one why there is no other. -/
def answerAt (text : List Char) (n : Nat) : Except Fault.Cause (Option Token) :=
  match (scan text).1[n]?, (scan text).2 with
  | some token, _ => .ok (some token)
  | none, some cause => .error cause
  | none, none => .ok none

theorem answerAt_congr {left right : List Char} (h : next left = next right) :
    answerAt left = answerAt right := by
  funext n
  rw [answerAt, answerAt, scan_congr h]

theorem answerAt_atEnd (text : List Char) : answerAt (atEnd text).2 = answerAt text :=
  answerAt_congr (next_atEnd text)

theorem answerAt_zero (text : List Char) : answerAt text 0 = (next text).1 := by
  rw [answerAt, scan_eq]
  rcases next text with ⟨cause | _ | token, rest⟩ <;> rfl

theorem answerAt_eq_token_iff {text : List Char} {n : Nat} {token : Token} :
    answerAt text n = .ok (some token) ↔ (scan text).1[n]? = some token := by
  rw [answerAt]
  rcases (scan text).1[n]? with _ | other
  · rcases (scan text).2 with _ | cause <;> simp
  · simp

theorem answerAt_of_le {text : List Char} {m n : Nat}
    (h : ∀ token, answerAt text m ≠ .ok (some token)) (hle : m ≤ n) :
    answerAt text n = answerAt text m := by
  have hm : (scan text).1[m]? = none := by
    rw [Option.eq_none_iff_forall_ne_some]
    exact fun token htoken => h token (answerAt_eq_token_iff.mpr htoken)
  have hn : (scan text).1[n]? = none :=
    List.getElem?_eq_none ((List.getElem?_eq_none_iff.mp hm).trans hle)
  rw [answerAt, answerAt, hm, hn]

theorem answerAt_succ (text : List Char) (n : Nat) :
    answerAt text (n + 1) = answerAt (next text).2 n := by
  by_cases htoken : ∃ token, (next text).1 = .ok (some token)
  · rcases htoken with ⟨token, htoken⟩
    rw [answerAt, scan_of_token (Prod.ext htoken rfl)]
    rfl
  · have hnone : ∀ token, (next text).1 ≠ .ok (some token) := not_exists.mp htoken
    have hsame : answerAt (next text).2 = answerAt text := answerAt_congr (next_next hnone)
    rw [← answerAt_zero] at hnone
    calc
      answerAt text (n + 1) = answerAt text 0 := answerAt_of_le hnone (Nat.zero_le _)
      _ = answerAt text n := (answerAt_of_le hnone (Nat.zero_le _)).symm
      _ = answerAt (next text).2 n := congrFun hsame.symm n

/-!
## Many calls
-/

/-- Whatever calls stand between them, the calls for a token get the answers of the text one after
the other. -/
theorem tokenAnswers_answers (text : List Char) (calls : List Call) :
    tokenAnswers (answers text calls) = (List.range (calls.count .next)).map (answerAt text) := by
  induction calls generalizing text with
  | nil => rfl
  | cons call calls ih =>
      cases call with
      | next =>
          have hrest : answerAt text ∘ Nat.succ = answerAt (next text).2 := by
            funext n
            exact answerAt_succ text n
          rw [List.count_cons_self, List.range_succ_eq_map, List.map_cons, List.map_map, hrest,
            answerAt_zero, ← ih]
          rfl
      | atEnd =>
          rw [List.count_cons_of_ne (by decide), ← answerAt_atEnd, ← ih]
          rfl

example :
    answers [' ', 'x', ';', '\n', ';', ' ', '\n', '"'] [.atEnd, .next, .atEnd, .next, .atEnd] =
    [.ended false, .token (.ok (some (.atom ['x']))), .ended false,
      .token (.error .unterminatedString), .ended false] := by
  decide

theorem getElem?_tokenAnswers {text : List Char} {calls : List Call} {n : Nat}
    {answer : Except Fault.Cause (Option Token)} :
    (tokenAnswers (answers text calls))[n]? = some answer ↔
      n < calls.count .next ∧ answerAt text n = answer := by
  rw [tokenAnswers_answers, List.getElem?_map, Option.map_eq_some_iff]
  constructor
  · rintro ⟨i, hi, hanswer⟩
    rcases List.getElem?_eq_some_iff.mp hi with ⟨hlt, rfl⟩
    rw [List.length_range] at hlt
    rw [List.getElem_range] at hanswer
    exact ⟨hlt, hanswer⟩
  · rintro ⟨hlt, hanswer⟩
    exact ⟨n, List.getElem?_range hlt, hanswer⟩

theorem tokenAnswers_answers_filter (text : List Char) (calls : List Call) :
    tokenAnswers (answers text (calls.filter (· ≠ .atEnd))) =
      tokenAnswers (answers text calls) := by
  rw [tokenAnswers_answers, tokenAnswers_answers, List.count_filter (by decide)]

theorem getElem?_tokenAnswers_division {d : Division} (h : d.Valid) {calls : List Call} {n : Nat}
    {token : Token} :
    (tokenAnswers (answers d.text calls))[n]? = some (.ok (some token)) ↔
      n < calls.count .next ∧ d.tokens[n]? = some token := by
  rw [getElem?_tokenAnswers, answerAt_eq_token_iff, h.scan_text.1]

theorem eq_of_getElem?_tokenAnswers {text : List Char} {calls : List Call} {m n : Nat}
    {first later : Except Fault.Cause (Option Token)}
    (hfirst : (tokenAnswers (answers text calls))[m]? = some first)
    (hnone : ∀ token, first ≠ .ok (some token)) (hle : m ≤ n)
    (hlater : (tokenAnswers (answers text calls))[n]? = some later) :
    later = first := by
  rcases getElem?_tokenAnswers.mp hfirst with ⟨-, rfl⟩
  rcases getElem?_tokenAnswers.mp hlater with ⟨-, rfl⟩
  exact answerAt_of_le hnone hle

theorem ended_iff_of_next_mem (text : List Char) {later : List Call} (h : .next ∈ later) :
    ∃ answer, (tokenAnswers (answers (atEnd text).2 later)).head? = some answer ∧
      ((atEnd text).1 = true ↔ answer = .ok none) := by
  have hhead : (tokenAnswers (answers (atEnd text).2 later))[0]? = some (answerAt text 0) := by
    rw [← answerAt_atEnd]
    exact getElem?_tokenAnswers.mpr ⟨List.count_pos_iff.mpr h, rfl⟩
  refine ⟨answerAt text 0, List.head?_eq_getElem?.trans hhead, ?_⟩
  rw [answerAt_zero]
  exact atEnd_eq_true_iff text

/-- Calls for the end disturb nothing, however they stand among the calls for a token.  The answers
to these are the tokens of the text from the first on, and the same with the calls for the end left
out.  A call for the end is answered as the next call for a token tells, whether that comes at once
or after other calls for the end.  After the end there is only the end, and after a fault only that
fault. -/
theorem calls_for_end_disturb_nothing (text : List Char) (calls : List Call) :
    (∃ d : Division, d.Valid ∧ d.text = text ∧
      ∀ n token, (tokenAnswers (answers text calls))[n]? = some (.ok (some token)) ↔
        n < calls.count .next ∧ d.tokens[n]? = some token) ∧
    tokenAnswers (answers text (calls.filter (· ≠ .atEnd))) = tokenAnswers (answers text calls) ∧
    (∀ before, ∃ ended, ∀ later, ∃ rest,
      answers text (before ++ .atEnd :: later) = answers text before ++ .ended ended :: rest ∧
        (.next ∈ later → ∃ answer, (tokenAnswers rest).head? = some answer ∧
          (ended = true ↔ answer = .ok none))) ∧
    (∀ (m n : Nat) answer, m ≤ n →
      (tokenAnswers (answers text calls))[m]? = some (.ok none) →
      (tokenAnswers (answers text calls))[n]? = some answer → answer = .ok none) ∧
    ∀ (m n : Nat) cause answer, m ≤ n →
      (tokenAnswers (answers text calls))[m]? = some (.error cause) →
      (tokenAnswers (answers text calls))[n]? = some answer → answer = .error cause := by
  refine ⟨?_, tokenAnswers_answers_filter text calls, ?_, ?_, ?_⟩
  · rcases exists_division text with ⟨d, hd, rfl⟩
    exact ⟨d, hd, rfl, fun n token => getElem?_tokenAnswers_division hd⟩
  · intro before
    refine ⟨(atEnd (textAfter text before)).1, fun later => ?_⟩
    refine ⟨answers (atEnd (textAfter text before)).2 later, ?_, ended_iff_of_next_mem _⟩
    rw [answers_append]
    rfl
  · intro m n answer hle hend hanswer
    exact eq_of_getElem?_tokenAnswers hend (by simp) hle hanswer
  · intro m n cause answer hle hfault hanswer
    exact eq_of_getElem?_tokenAnswers hfault (by simp) hle hanswer

end Token
end MiniLisp
