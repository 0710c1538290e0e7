import Mathlib
import MiniLisp.Proofs.Datum.RoundTrip
import MiniLisp.Proofs.Token.Division

/-!
# Reading a row of tokens

Reading takes tokens one at a time and stops between two of them.  Nothing is lost when all tokens
of a text are taken first: the forms of a text are those that its row of tokens holds.

## Main statements

* `forms_eq_ofRow`: the forms and the fault of a text are those of its row of tokens.
* `all_eq_ok_iff`: a text is read without a fault exactly if its tokens are taken without one and
  leave nothing unfinished.
* `kind_of_all_eq_error`: every fault of reading says that the text is malformed.
-/

namespace MiniLisp
namespace Reading

open Fault (Cause)

/-- What reading makes of tokens: the forms that they complete, and then the fault that stops it or
what is unfinished. -/
def assemble (pending : Pending) : List Token → List Datum × Except Cause Pending
  | [] => ([], .ok pending)
  | token :: rest =>
      match accept pending token with
      | .error cause => ([], .error cause)
      | .ok (.complete d) => (d :: (assemble [] rest).1, (assemble [] rest).2)
      | .ok (.waiting inner) => assemble inner rest

def carryOn : Progress → List Token → List Datum × Except Cause Pending
  | .complete d, rest => (d :: (assemble [] rest).1, (assemble [] rest).2)
  | .waiting pending, rest => assemble pending rest

theorem assemble_of_accept {pending : Pending} {token : Token} {progress : Progress}
    (h : accept pending token = .ok progress) (rest : List Token) :
    assemble pending (token :: rest) = carryOn progress rest := by
  rw [assemble, h]
  cases progress <;> rfl

theorem assemble_of_refuse {pending : Pending} {token : Token} {cause : Cause}
    (h : accept pending token = .error cause) (rest : List Token) :
    assemble pending (token :: rest) = ([], .error cause) := by
  rw [assemble, h]

/-- The fault at the end of a row: the one that ends it, or else that something is unfinished. -/
def lastFault (pending : Pending) : Option Cause → Option Cause
  | some cause => some cause
  | none =>
      match atEnd pending with
      | .error cause => some cause
      | .ok _ => none

def ofRow (pending : Pending) (row : List Token × Option Cause) : List Datum × Option Cause :=
  match assemble pending row.1 with
  | (ds, .error cause) => (ds, some cause)
  | (ds, .ok inner) => (ds, lastFault inner row.2)

theorem ofRow_nil (pending : Pending) (cause : Option Cause) :
    ofRow pending ([], cause) = ([], lastFault pending cause) := rfl

theorem ofRow_of_accept {pending : Pending} {token : Token} {progress : Progress}
    (h : accept pending token = .ok progress) (rest : List Token) (cause : Option Cause) :
    ofRow pending (token :: rest, cause) =
      match progress with
      | .complete d => (d :: (ofRow [] (rest, cause)).1, (ofRow [] (rest, cause)).2)
      | .waiting inner => ofRow inner (rest, cause) := by
  rw [ofRow, assemble_of_accept h]
  cases progress with
  | complete d =>
      simp only [carryOn, ofRow]
      rcases assemble [] rest with ⟨ds, other | inner⟩ <;> rfl
  | waiting inner => rfl

theorem ofRow_of_refuse {pending : Pending} {token : Token} {cause : Cause}
    (h : accept pending token = .error cause) (rest : List Token) (last : Option Cause) :
    ofRow pending (token :: rest, last) = ([], some cause) := by
  rw [ofRow, assemble_of_refuse h]

/-!
## From texts to rows
-/

def formsFrom (pending : Pending) (text : List Char) : List Datum × Option Cause :=
  match readFrom pending text with
  | (.error cause, _) => ([], some cause)
  | (.ok none, _) => ([], none)
  | (.ok (some d), rest) => (d :: (forms rest).1, (forms rest).2)

theorem forms_eq_formsFrom (text : List Char) : forms text = formsFrom [] text := by
  rw [forms]
  split <;> rename_i heq <;> rw [next] at heq <;> rw [formsFrom, heq]

theorem formsFrom_eq_ofRow (pending : Pending) (text : List Char) :
    formsFrom pending text = ofRow pending (Token.scan text) := by
  induction hlength : text.length using Nat.strongRecOn generalizing pending text with
  | ind n ih =>
      rw [formsFrom, readFrom_eq]
      rcases hnext : Token.next text with ⟨answer, rest⟩
      match answer with
      | .error cause =>
          rw [Token.scan_of_fault hnext]
          rfl
      | .ok none =>
          rw [Token.scan_of_end hnext, ofRow_nil]
          match pending with
          | [] => rfl
          | .items _ :: _ => rfl
          | .quoted :: _ => rfl
      | .ok (some token) =>
          have hrest := ih rest.length (hlength ▸ Token.next_shorter hnext)
          rw [Token.scan_of_token hnext]
          dsimp only
          cases haccept : accept pending token with
          | error cause => rw [ofRow_of_refuse haccept]
          | ok progress =>
              rw [ofRow_of_accept haccept]
              cases progress with
              | complete d =>
                  simp only [resume]
                  rw [forms_eq_formsFrom, hrest [] rest rfl]
              | waiting inner =>
                  exact hrest inner rest rfl

/-- The forms and the fault of a text are those of its row of tokens. -/
theorem forms_eq_ofRow (text : List Char) : forms text = ofRow [] (Token.scan text) := by
  rw [forms_eq_formsFrom, formsFrom_eq_ofRow]

/-!
## Texts without a fault
-/

theorem lastFault_eq_none_iff {pending : Pending} {cause : Option Cause} :
    lastFault pending cause = none ↔ cause = none ∧ pending = [] := by
  match cause, pending with
  | some _, _ => simp [lastFault]
  | none, [] => simp [lastFault, atEnd]
  | none, .items _ :: _ => simp [lastFault, atEnd]
  | none, .quoted :: _ => simp [lastFault, atEnd]

theorem all_eq_ok_iff_forms {text : List Char} {ds : List Datum} :
    all text = .ok ds ↔ forms text = (ds, none) := by
  unfold all
  split <;> rename_i heq <;> rw [heq] <;> simp

theorem all_eq_error_iff_forms {text : List Char} {cause : Cause} :
    all text = .error cause ↔ (forms text).2 = some cause := by
  unfold all
  split <;> rename_i heq <;> rw [heq] <;> simp

/-- A text is read without a fault exactly if its tokens are taken without one and leave nothing
unfinished. -/
theorem all_eq_ok_iff {text : List Char} {ds : List Datum} :
    all text = .ok ds ↔
      (Token.scan text).2 = none ∧ assemble [] (Token.scan text).1 = (ds, .ok []) := by
  rw [all_eq_ok_iff_forms, forms_eq_ofRow, ofRow]
  rcases assemble [] (Token.scan text).1 with ⟨es, cause | pending⟩
  · simp
  · simp only [Prod.mk.injEq, lastFault_eq_none_iff, Except.ok.injEq]
    tauto

/-!
## Faults of reading
-/

theorem eq_of_accept_eq_error {pending : Pending} {token : Token} {cause : Cause}
    (h : accept pending token = .error cause) : cause = .unexpectedClose := by
  cases token with
  | opening | quote | atom => cases h
  | closing =>
      simp only [accept] at h
      split at h
      · cases h
      · cases h
        rfl

theorem eq_of_assemble_eq_error {pending : Pending} {tokens : List Token} {cause : Cause}
    (h : (assemble pending tokens).2 = .error cause) : cause = .unexpectedClose := by
  induction tokens generalizing pending with
  | nil => cases h
  | cons token rest ih =>
      cases haccept : accept pending token with
      | error other =>
          rw [assemble_of_refuse haccept] at h
          cases h
          exact eq_of_accept_eq_error haccept
      | ok progress =>
          rw [assemble_of_accept haccept] at h
          cases progress with
          | complete d => exact ih h
          | waiting inner => exact ih h

theorem kind_of_scan {text : List Char} {cause : Cause} (h : (Token.scan text).2 = some cause) :
    cause.kind = .malformed := by
  rcases Token.exists_division text with ⟨d, hd, rfl⟩
  rcases (hd.scan_text.2 cause).mp h with ⟨rfl, -⟩
  rfl

theorem kind_of_lastFault {pending : Pending} {last : Option Cause} {cause : Cause}
    (hlast : ∀ c, last = some c → c.kind = .malformed)
    (h : lastFault pending last = some cause) : cause.kind = .malformed := by
  match last, pending with
  | some c, _ => exact Option.some.inj h ▸ hlast c rfl
  | none, [] => cases h
  | none, .items _ :: _ =>
      cases h
      rfl
  | none, .quoted :: _ =>
      cases h
      rfl

/-- Every fault of reading says that the text is malformed. -/
theorem kind_of_all_eq_error {text : List Char} {cause : Cause}
    (h : all text = .error cause) : cause.kind = .malformed := by
  rw [all_eq_error_iff_forms, forms_eq_ofRow, ofRow] at h
  rcases hassemble : assemble [] (Token.scan text).1 with ⟨ds, other | pending⟩
  · rw [hassemble] at h
    cases h
    rw [eq_of_assemble_eq_error (congrArg Prod.snd hassemble)]
    rfl
  · rw [hassemble] at h
    exact kind_of_lastFault (fun c hc => kind_of_scan hc) h

end Reading
end MiniLisp
