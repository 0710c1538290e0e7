import MiniLisp.Proofs.Toplevel.Texts

/-!
# Progress of reading

A text may be read call by call, whatever faults there are on the way: each call goes on where the
one before left the text.  A call that gives a form takes at least one character, and so does one
that fails, unless a string literal is not completed: that fault leaves the text where the literal
begins.  It comes again at every later call, as the end of the text does.

## Main statements

* `Reading.consumes_of_not_isFinal`: a call takes a character from the text, unless its answer is
  final.
* `Reading.next_of_isFinal`: a final answer comes again.
* `Toplevel.reading_ends`: after as many calls as the text has characters all answers are the same,
  and reading or evaluating the whole text takes no more than one call on top of that.
-/

namespace MiniLisp

namespace Reading

open Fault (Cause)

/-!
# One call
-/

/-- The answers after which nothing else comes: the end, and a string literal that is not
completed. -/
def IsFinal (answer : Except Cause (Option Datum)) : Prop :=
  answer = .ok none ∨ answer = .error .unterminatedString

/-- What is left of a text lacks at least one character, at the front. -/
def Consumes (text rest : List Char) : Prop :=
  ∃ taken, taken ≠ [] ∧ taken ++ rest = text

theorem Consumes.length_lt {text rest : List Char} (h : Consumes text rest) :
    rest.length < text.length := by
  rcases h with ⟨taken, htaken, rfl⟩
  rw [List.length_append]
  have := List.length_pos_iff.mpr htaken
  omega

theorem Consumes.isSuffix {text rest left : List Char} (h : Consumes text rest)
    (hleft : left <:+ rest) :
    Consumes text left := by
  rcases h with ⟨taken, htaken, rfl⟩
  rcases hleft with ⟨more, rfl⟩
  exact ⟨taken ++ more, List.append_ne_nil_of_left_ne_nil htaken more, List.append_assoc _ _ _⟩

theorem isSuffix_of_token {text rest : List Char} {token : Token}
    (h : Token.next text = (.ok (some token), rest)) :
    rest <:+ text := by
  have hsuffix := Token.next_isSuffix text
  rw [h] at hsuffix
  exact hsuffix

theorem consumes_of_token {text rest : List Char} {token : Token}
    (h : Token.next text = (.ok (some token), rest)) :
    Consumes text rest := by
  rcases isSuffix_of_token h with ⟨taken, htaken⟩
  refine ⟨taken, ?_, htaken⟩
  rintro rfl
  have hlt := Token.next_shorter h
  rw [← htaken] at hlt
  exact Nat.lt_irrefl _ hlt

theorem readFrom_isSuffix (pending : Pending) (text : List Char) :
    (readFrom pending text).2 <:+ text := by
  have hsuffix := Token.next_isSuffix
  fun_induction readFrom pending text with
  | case1 pending text cause rest hnext => exact congrArg Prod.snd hnext ▸ hsuffix text
  | case2 pending text rest hnext => exact congrArg Prod.snd hnext ▸ hsuffix text
  | case3 pending text token rest hnext => exact congrArg Prod.snd hnext ▸ hsuffix text
  | case4 pending text token rest hnext => exact congrArg Prod.snd hnext ▸ hsuffix text
  | case5 pending text token rest hnext inner _ ih =>
      exact ih.trans (isSuffix_of_token hnext)

theorem resume_isSuffix (progress : Progress) (rest : List Char) :
    (resume progress rest).2 <:+ rest := by
  cases progress with
  | complete d => exact List.suffix_refl rest
  | waiting pending => exact readFrom_isSuffix pending rest

/-- A call takes a character from the text, unless its answer is final. -/
theorem consumes_of_not_isFinal {text : List Char} (h : ¬ IsFinal (next text).1) :
    Consumes text (next text).2 := by
  rw [next, readFrom_eq] at h ⊢
  rcases hnext : Token.next text with ⟨cause | _ | token, rest⟩
  · rw [hnext, (Token.unterminated_of_next_fault hnext).1] at h
    exact absurd (.inr rfl) h
  · rw [hnext] at h
    exact absurd (.inl rfl) h
  · have hrest := consumes_of_token hnext
    dsimp only
    cases accept [] token with
    | error cause => exact hrest
    | ok progress => exact hrest.isSuffix (resume_isSuffix progress rest)

theorem eq_nil_of_readFrom_end {pending : Pending} {text rest : List Char}
    (h : readFrom pending text = (.ok none, rest)) :
    rest = [] := by
  fun_induction readFrom pending text with
  | case1 => cases h
  | case2 pending text left hnext => exact (Prod.mk.inj h).2 ▸ Token.eq_nil_of_next_end hnext
  | case3 => cases h
  | case4 => cases h
  | case5 _ _ _ _ _ _ _ ih => exact ih h

theorem unterminated_of_readFrom {pending : Pending} {text rest : List Char}
    (h : readFrom pending text = (.error .unterminatedString, rest)) :
    Token.Unterminated rest := by
  fun_induction readFrom pending text with
  | case1 pending text cause left hnext =>
      exact (Prod.mk.inj h).2 ▸ (Token.unterminated_of_next_fault hnext).2
  | case2 pending text =>
      rcases pending with _ | ⟨_ | _, _⟩ <;> cases h
  | case3 pending text token left hnext cause haccept =>
      rw [eq_of_accept_eq_error haccept] at h
      cases h
  | case4 => cases h
  | case5 _ _ _ _ _ _ _ ih => exact ih h

/-- A final answer comes again, and the text stays as it is. -/
theorem next_of_isFinal {text : List Char} (h : IsFinal (next text).1) :
    next (next text).2 = next text := by
  rcases hread : next text with ⟨answer, rest⟩
  rw [hread] at h
  rcases h with rfl | rfl
  · rw [eq_nil_of_readFrom_end hread, next, readFrom_eq]
    rfl
  · rw [next, readFrom_eq, Token.next_of_unterminated (unterminated_of_readFrom hread)]

/-!
# Many calls
-/

def textAfter : Nat → List Char → List Char
  | 0, text => text
  | calls + 1, text => textAfter calls (next text).2

def answerAfter (calls : Nat) (text : List Char) : Except Cause (Option Datum) :=
  (next (textAfter calls text)).1

theorem textAfter_succ (calls : Nat) (text : List Char) :
    textAfter (calls + 1) text = (next (textAfter calls text)).2 := by
  induction calls generalizing text with
  | zero => rfl
  | succ calls ih => exact ih (next text).2

theorem answerAfter_succ (calls : Nat) (text : List Char) :
    answerAfter (calls + 1) text = answerAfter calls (next text).2 :=
  rfl

theorem answerAfter_of_isFinal {calls later : Nat} {text : List Char}
    (h : IsFinal (answerAfter calls text)) (hle : calls ≤ later) :
    answerAfter later text = answerAfter calls text := by
  have hnext : next (textAfter later text) = next (textAfter calls text) := by
    induction hle with
    | refl => rfl
    | step hle ih =>
        unfold answerAfter at h
        rw [← ih] at h
        rw [textAfter_succ, next_of_isFinal h, ih]
  exact congrArg Prod.fst hnext

theorem isFinal_answerAfter {calls : Nat} {text : List Char} (h : text.length ≤ calls) :
    IsFinal (answerAfter calls text) := by
  induction calls generalizing text with
  | zero =>
      rw [List.length_eq_zero_iff.mp (Nat.le_zero.mp h), answerAfter, textAfter, next, readFrom_eq]
      exact .inl rfl
  | succ calls ih =>
      by_cases hfinal : IsFinal (answerAfter 0 text)
      · rw [answerAfter_of_isFinal hfinal (Nat.zero_le _)]
        exact hfinal
      · have hlt : (next text).2.length < text.length := (consumes_of_not_isFinal hfinal).length_lt
        exact ih (by omega)

/-!
# Whole texts
-/

def ending : Option Cause → Except Cause (Option Datum)
  | none => .ok none
  | some cause => .error cause

theorem answerAfter_of_forms (text : List Char) :
    (∀ i d, (forms text).1[i]? = some d → answerAfter i text = .ok (some d)) ∧
      answerAfter (forms text).1.length text = ending (forms text).2 := by
  fun_induction forms text with
  | case1 text cause rest hnext => exact ⟨nofun, congrArg Prod.fst hnext⟩
  | case2 text rest hnext => exact ⟨nofun, congrArg Prod.fst hnext⟩
  | case3 text d rest hnext ds cause hrest ih =>
      rw [hrest] at ih
      have hsucc : ∀ i, answerAfter (i + 1) text = answerAfter i rest := by
        intro i
        rw [answerAfter_succ, hnext]
      constructor
      · intro i e he
        cases i with
        | zero =>
            cases he
            exact congrArg Prod.fst hnext
        | succ i => exact (hsucc i).trans (ih.1 i e he)
      · exact (hsucc ds.length).trans ih.2

theorem length_forms_le (text : List Char) : (forms text).1.length ≤ text.length := by
  fun_induction forms text with
  | case1 => exact Nat.zero_le _
  | case2 => exact Nat.zero_le _
  | case3 text d rest hnext ds cause hrest ih =>
      rw [hrest] at ih
      exact Nat.lt_of_le_of_lt ih (next_shorter hnext)

def allWithin : Nat → List Char → Option (Except Cause (List Datum))
  | 0, _ => none
  | calls + 1, text =>
      match next text with
      | (.error cause, _) => some (.error cause)
      | (.ok none, _) => some (.ok [])
      | (.ok (some d), rest) => (allWithin calls rest).map fun ds => ds.map (d :: ·)

theorem all_eq_next (text : List Char) :
    all text = match next text with
      | (.error cause, _) => .error cause
      | (.ok none, _) => .ok []
      | (.ok (some d), rest) => (all rest).map (d :: ·) := by
  rw [all, forms_eq_formsFrom, formsFrom, next]
  rcases readFrom [] text with ⟨cause | _ | d, rest⟩
  · rfl
  · rfl
  · dsimp only
    rw [all]
    rcases forms rest with ⟨ds, _ | cause⟩
    · rfl
    · rfl

theorem allWithin_eq {calls : Nat} {text : List Char} (h : text.length < calls) :
    allWithin calls text = some (all text) := by
  induction calls generalizing text with
  | zero => cases h
  | succ calls ih =>
      rw [allWithin, all_eq_next]
      rcases hread : next text with ⟨cause | _ | d, rest⟩
      · rfl
      · rfl
      · have hlt := next_shorter hread
        exact congrArg (Option.map _) (ih (by omega))

end Reading

namespace Toplevel

open Reading

def readAndEvalWithin (depth : Nat) (top : Toplevel) : Nat → Val → List Char → Run Code Val
  | 0, _, _ => Run.tooDeep
  | calls + 1, last, text =>
      match Reading.next text with
      | (.error cause, _) => Run.fail cause
      | (.ok none, _) => pure last
      | (.ok (some d), rest) => do
          let v ← top.evalDatum depth d
          readAndEvalWithin depth top calls v rest

theorem readAndEvalWithin_eq {depth calls : Nat} {top : Toplevel} (last : Val) {text : List Char}
    (h : text.length < calls) :
    readAndEvalWithin depth top calls last text = readAndEval depth top last text := by
  induction calls generalizing last text with
  | zero => cases h
  | succ calls ih =>
      rw [readAndEvalWithin, readAndEval_eq]
      rcases hread : Reading.next text with ⟨_ | _ | d, rest⟩
      · rfl
      · rfl
      · have hlt := next_shorter hread
        exact bind_congr fun v => ih v (by omega)

/-- A text of `n` characters is read call by call.  A call takes at least one of them unless its
answer is the end or a string literal that is not completed, and after such an answer there is no
other.  So from call `n` on all answers are the same.  The whole text has no more than `n` forms,
which are the answers up to the first that is no form.  Reading it all calls the reader no more
than `n + 1` times, and so does evaluating it by turns with reading. -/
theorem reading_ends (text : List Char) :
    (∀ calls, ¬ IsFinal (answerAfter calls text) →
      Consumes (textAfter calls text) (textAfter (calls + 1) text)) ∧
    (∀ calls later, IsFinal (answerAfter calls text) → calls ≤ later →
      answerAfter later text = answerAfter calls text) ∧
    (∀ later, text.length ≤ later →
      answerAfter later text = answerAfter text.length text) ∧
    ((forms text).1.length ≤ text.length ∧
      (∀ i d, (forms text).1[i]? = some d → answerAfter i text = .ok (some d)) ∧
      answerAfter (forms text).1.length text = ending (forms text).2) ∧
    (allWithin (text.length + 1) text = some (all text) ∧
      ∀ ds, all text = .ok ds → ds.length ≤ text.length) ∧
    ∀ depth top, evalText depth top text =
      readAndEvalWithin depth top (text.length + 1) .undefined text := by
  refine ⟨?_, ?_, ?_, ⟨length_forms_le text, answerAfter_of_forms text⟩,
    ⟨allWithin_eq (Nat.lt_succ_self _), ?_⟩, ?_⟩
  · intro calls hfinal
    rw [textAfter_succ]
    exact consumes_of_not_isFinal hfinal
  · exact fun calls later hfinal hle => answerAfter_of_isFinal hfinal hle
  · exact fun later hle => answerAfter_of_isFinal (isFinal_answerAfter (Nat.le_refl _)) hle
  · intro ds hds
    have hlength := length_forms_le text
    rw [all_eq_ok_iff_forms.mp hds] at hlength
    exact hlength
  · intro depth top
    rw [readAndEvalWithin_eq .undefined (Nat.lt_succ_self _), evalText_eq,
      readAndEval_eq_evalEach]

end Toplevel
end MiniLisp
