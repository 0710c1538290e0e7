import MiniLisp.Proofs.Code.Rules
import MiniLisp.Proofs.Datum.Joined
import MiniLisp.Toplevel

/-!
# Evaluation of whole texts

Reading a text and evaluating it may take turns, one form at a time, or all forms that can be read
may be read first: there is no difference, since reading does not depend on what has been evaluated.
So a text that can be read to its end may be evaluated together with the text after it or alone.

## Main statement

* `Toplevel.texts_in_order`: texts that are joined by a line feed are evaluated one after the
  other, and of each text the forms before its first fault of reading, in order and up to the first
  that fails.
-/

namespace MiniLisp
namespace Toplevel

/-- Reads a form, evaluates it and goes on with the text that is left, up to its end or the first
fault; `last` is the value of the form before. -/
def readAndEval (depth : Nat) (top : Toplevel) (last : Val) (text : List Char) : Run Code Val :=
  match _read : Reading.next text with
  | (.error cause, _) => Run.fail cause
  | (.ok none, _) => pure last
  | (.ok (some d), rest) => do
      let v ← top.evalDatum depth d
      readAndEval depth top v rest
termination_by text.length
decreasing_by exact Reading.next_shorter _read

/-- Data that are evaluated in order, each once and with a value, from one store to another;
`last` is the value before them, and the value after them is that of the last one. -/
inductive EvaluatesEach (depth : Nat) (top : Toplevel) :
    List Datum → Val → Store Code → Val → Store Code → Prop where
  | nil {last s} :
      EvaluatesEach depth top [] last s last s
  | cons {d rest last s v t w u} :
      top.evalDatum depth d s = some (.ok v, t) →
      EvaluatesEach depth top rest v t w u →
      EvaluatesEach depth top (d :: rest) last s w u

variable {depth : Nat} {top : Toplevel}

/-!
## Data in order
-/

theorem evalEach_append (last : Val) (ds es : List Datum) :
    top.evalEach depth last (ds ++ es) =
      (do
        let v ← top.evalEach depth last ds
        top.evalEach depth v es) := by
  induction ds generalizing last with
  | nil => rw [List.nil_append, evalEach, pure_bind]
  | cons d rest ih => simp only [List.cons_append, evalEach, bind_assoc, ih]

theorem evalEach_eq_ok_iff {last w : Val} {ds : List Datum} {s u : Store Code} :
    top.evalEach depth last ds s = some (.ok w, u) ↔ EvaluatesEach depth top ds last s w u := by
  constructor
  · intro h
    induction ds generalizing last s with
    | nil =>
        cases h
        exact .nil
    | cons d rest ih =>
        rcases Run.bind_eq_some h with ⟨v, t, hd, h⟩ | ⟨fault, -, hfault⟩
        · exact .cons hd (ih h)
        · cases hfault
  · intro h
    induction h with
    | nil => rfl
    | cons hd _ ih =>
        rw [evalEach, Run.bind_of_ok hd]
        exact ih

theorem evalEach_eq_error_iff {last : Val} {ds : List Datum} {s t : Store Code} {fault : Fault} :
    top.evalEach depth last ds s = some (.error fault, t) ↔
      ∃ done d rest v u, ds = done ++ d :: rest ∧ EvaluatesEach depth top done last s v u ∧
        top.evalDatum depth d u = some (.error fault, t) := by
  constructor
  · intro h
    induction ds generalizing last s with
    | nil => cases h
    | cons d rest ih =>
        rcases Run.bind_eq_some h with ⟨v, m, hd, h⟩ | ⟨fault, hd, hfault⟩
        · rcases ih h with ⟨done, e, after, w, u, rfl, hdone, he⟩
          exact ⟨d :: done, e, after, w, u, rfl, .cons hd hdone, he⟩
        · cases hfault
          exact ⟨[], d, rest, last, s, rfl, .nil, hd⟩
  · rintro ⟨done, d, rest, v, u, rfl, hdone, hd⟩
    rw [evalEach_append, Run.bind_of_ok (evalEach_eq_ok_iff.mpr hdone), evalEach,
      Run.bind_of_error hd]

/-!
## Forms of texts
-/

/-- The result of a text with or without a fault of reading, after a last form with this value. -/
def conclusion : Option Fault.Cause → Val → Except Fault Val
  | none, last => .ok last
  | some cause, _ => .error { cause }

def conclude (cause : Option Fault.Cause) (last : Val) : Run Code Val :=
  ExceptT.mk fun s => some (conclusion cause last, s)

theorem evalText_eq (text : List Char) :
    top.evalText depth text =
      (do
        let last ← top.evalEach depth .undefined (Reading.forms text).1
        conclude (Reading.forms text).2 last) := by
  rw [evalText]
  rcases Reading.forms text with ⟨ds, none | cause⟩ <;> rfl

theorem readAndEval_eq (last : Val) (text : List Char) :
    readAndEval depth top last text =
      match Reading.next text with
      | (.error cause, _) => Run.fail cause
      | (.ok none, _) => pure last
      | (.ok (some d), rest) =>
          (do
            let v ← top.evalDatum depth d
            readAndEval depth top v rest) := by
  rw [readAndEval]
  split <;> rename_i heq <;> rw [heq]

theorem readAndEval_eq_evalEach (last : Val) (text : List Char) :
    readAndEval depth top last text =
      (do
        let v ← top.evalEach depth last (Reading.forms text).1
        conclude (Reading.forms text).2 v) := by
  induction hlength : text.length using Nat.strongRecOn generalizing last text with
  | ind n ih =>
      rcases hread : Reading.next text with ⟨answer, rest⟩
      have hforms : Reading.readFrom [] text = (answer, rest) := hread
      rw [readAndEval_eq, Reading.forms_eq_formsFrom, Reading.formsFrom, hread, hforms]
      rcases answer with cause | _ | d
      · rfl
      · rfl
      · simp only [evalEach, bind_assoc]
        exact bind_congr fun v =>
          ih rest.length (hlength ▸ Reading.next_shorter hread) v rest rfl

theorem evalText_append {text : List Char} {ds : List Datum} (h : Reading.all text = .ok ds)
    (more : List Char) :
    top.evalText depth (text ++ '\n' :: more) =
      (do
        let v ← top.evalText depth text
        let w ← top.evalText depth more
        pure (if (Reading.forms more).1.isEmpty then v else w)) := by
  have hforms := Reading.all_eq_ok_iff_forms.mp h
  simp only [evalText_eq, Reading.forms_append h, hforms, evalEach_append, bind_assoc]
  apply bind_congr
  intro v
  rcases Reading.forms more with ⟨_ | ⟨d, rest⟩, none | cause⟩ <;> rfl

theorem evalText_eq_some_iff {text : List Char} {s t : Store Code} {r : Except Fault Val} :
    top.evalText depth text s = some (r, t) ↔
      (∃ last, EvaluatesEach depth top (Reading.forms text).1 .undefined s last t ∧
        r = conclusion (Reading.forms text).2 last) ∨
      ∃ done d rest v u fault, (Reading.forms text).1 = done ++ d :: rest ∧
        EvaluatesEach depth top done .undefined s v u ∧
        top.evalDatum depth d u = some (.error fault, t) ∧ r = .error fault := by
  rw [evalText_eq]
  constructor
  · intro h
    rcases Run.bind_eq_some h with ⟨last, u, hforms, h⟩ | ⟨fault, hforms, rfl⟩
    · cases h
      exact Or.inl ⟨last, evalEach_eq_ok_iff.mp hforms, rfl⟩
    · rcases evalEach_eq_error_iff.mp hforms with ⟨done, d, rest, v, u, heq, hdone, hd⟩
      exact Or.inr ⟨done, d, rest, v, u, fault, heq, hdone, hd, rfl⟩
  · rintro (⟨last, hforms, rfl⟩ | ⟨done, d, rest, v, u, fault, heq, hdone, hd, rfl⟩)
    · exact Run.bind_of_ok (evalEach_eq_ok_iff.mpr hforms)
    · exact Run.bind_of_error (evalEach_eq_error_iff.mpr ⟨done, d, rest, v, u, heq, hdone, hd⟩)

/-- Texts compose.  A text without a fault of reading and the text after it, joined by a line feed,
are read and evaluated one after the other, and the first keeps its value if the second holds no
form.  Reading and evaluating a text by turns, form by form, is the same as reading it first; and a
text ends either after each of its forms has been evaluated, in order, and then with the fault of
reading if there is one, or at the first form that fails. -/
theorem texts_in_order (depth : Nat) (top : Toplevel) :
    (∀ text ds more, Reading.all text = .ok ds →
      Reading.all (text ++ '\n' :: more) = (Reading.all more).map (ds ++ ·) ∧
      top.evalText depth (text ++ '\n' :: more) =
        (do
          let v ← top.evalText depth text
          let w ← top.evalText depth more
          pure (if (Reading.forms more).1.isEmpty then v else w))) ∧
    (∀ text, top.evalText depth text = readAndEval depth top .undefined text) ∧
    ∀ text s r t, top.evalText depth text s = some (r, t) ↔
      (∃ last, EvaluatesEach depth top (Reading.forms text).1 .undefined s last t ∧
        r = conclusion (Reading.forms text).2 last) ∨
      ∃ done d rest v u fault, (Reading.forms text).1 = done ++ d :: rest ∧
        EvaluatesEach depth top done .undefined s v u ∧
        top.evalDatum depth d u = some (.error fault, t) ∧ r = .error fault := by
  refine ⟨fun text ds more h => ?_, fun text => ?_, fun text s r t => evalText_eq_some_iff⟩
  · exact ⟨Reading.all_append h more, evalText_append h more⟩
  · rw [evalText_eq, readAndEval_eq_evalEach]

theorem texts_in_order_comment :
    Reading.all ['x', ';', 'y'] = .ok [.atom (.symbol ⟨"x"⟩)] ∧
      Reading.all (['x', ';', 'y'] ++ '\n' :: ['z', ')']) =
        (Reading.all ['z', ')']).map ([.atom (.symbol ⟨"x"⟩)] ++ ·) ∧
      evalText defaultDepth ⟨⟨0, []⟩⟩ (['x', ';', 'y'] ++ '\n' :: ['z', ')']) =
        (do
          let v ← evalText defaultDepth ⟨⟨0, []⟩⟩ ['x', ';', 'y']
          let w ← evalText defaultDepth ⟨⟨0, []⟩⟩ ['z', ')']
          pure (if (Reading.forms ['z', ')']).1.isEmpty then v else w)) := by
  have hread : Reading.all ['x', ';', 'y'] = .ok [.atom (.symbol ⟨"x"⟩)] := by
    have hscan : Token.scan ['x', ';', 'y'] = ([.atom ['x']], none) := by
      cbv
    rw [Reading.all_eq_ok_iff, hscan]
    exact ⟨rfl, by cbv⟩
  exact ⟨hread, (texts_in_order defaultDepth ⟨⟨0, []⟩⟩).1 _ _ ['z', ')'] hread⟩

end Toplevel
end MiniLisp
