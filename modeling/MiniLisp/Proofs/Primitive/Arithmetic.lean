import MiniLisp.Proofs.Code.Phases

/-!
# Arithmetic

The five arithmetic primitives fold their arguments from the left, starting from the first one.  The
seed is what they give without arguments, and has no part in any other fold.  The first argument
from the left that is no number ends the fold with a fault, whatever stands after it.

## Main statements

* `Primitive.apply_eq_ending`: how an arithmetic primitive ends, for every list of arguments.
* `Primitive.apply_append`: folding a list of arguments in two parts.
* `Primitive.arithmetic_folds`: both of these, and the same for calls as they are written.
-/

namespace MiniLisp
namespace Primitive

variable {β : Type}

structure Arithmetic where
  operation : Float → Float → Float
  seed : Float

def arithmetic? : Primitive → Option Arithmetic
  | .add => some ⟨fun x y => x + y, 0⟩
  | .subtract => some ⟨fun x y => x - y, 0⟩
  | .multiply => some ⟨fun x y => x * y, 1⟩
  | .divide => some ⟨fun x y => x / y, 0⟩
  | .remainder => some ⟨Number.remainder, 0⟩
  | _ => none

namespace Arithmetic

/-- The left fold that starts from the first number, or the seed. -/
def total (A : Arithmetic) : List Float → Float
  | [] => A.seed
  | x :: xs => xs.foldl A.operation x

/-- How an arithmetic primitive ends: with the total of its arguments if all of them are numbers,
and otherwise with a fault that names the primitive and the first argument that is none. -/
def ending (A : Arithmetic) (p : Primitive) (vs : List (Value β)) : Except Fault (Value β) :=
  match vs.find? fun v => v.number?.isNone with
  | some v => .error { cause := .wrongType p.name "number" v.shown }
  | none => .ok (.number (A.total (vs.filterMap Value.number?)))

theorem find?_numbers (xs : List Float) :
    (xs.map .number : List (Value β)).find? (fun v => v.number?.isNone) = none := by
  simp [Value.number?]

theorem ending_numbers (A : Arithmetic) (p : Primitive) (xs : List Float) :
    A.ending p (xs.map .number : List (Value β)) = .ok (.number (A.total xs)) := by
  have hxs : (xs.map Value.number : List (Value β)).filterMap Value.number? = xs := by
    rw [List.filterMap_map]
    exact List.filterMap_some
  rw [ending, find?_numbers, hxs]

theorem ending_of_not_number (A : Arithmetic) (p : Primitive) (xs : List Float) {v : Value β}
    (hv : v.number? = none) (vs : List (Value β)) :
    A.ending p (xs.map .number ++ v :: vs) =
      .error { cause := .wrongType p.name "number" v.shown } := by
  have hfind : (xs.map Value.number ++ v :: vs).find? (fun v => v.number?.isNone) = some v := by
    rw [List.find?_append, find?_numbers, Option.none_or, List.find?_cons_of_pos (by rw [hv]; rfl)]
  rw [ending, hfind]

end Arithmetic

/-!
# Folds
-/

section

variable {p : Primitive} {v : Value β} {x : Float}

theorem eq_number_of_some (h : v.number? = some x) : v = .number x := by
  cases v with
  | atom a =>
      cases a with
      | number y =>
          cases h
          rfl
      | _ => cases h
  | _ => cases h

theorem number_of_some (h : v.number? = some x) : number p v = .ok x := by
  rw [eq_number_of_some h]
  rfl

theorem number_of_none (h : v.number? = none) :
    number p v = .error (.wrongType p.name "number" v.shown) := by
  cases v with
  | atom a =>
      cases a with
      | number y => cases h
      | _ => rfl
  | _ => rfl

theorem eq_map_number {vs : List (Value β)} (h : vs.find? (fun v => v.number?.isNone) = none) :
    vs = (vs.filterMap Value.number?).map .number := by
  induction vs with
  | nil => rfl
  | cons v vs ih =>
      rw [List.find?_cons] at h
      cases hv : v.number? with
      | none => simp only [hv, Option.isNone_none, reduceCtorEq] at h
      | some x =>
          simp only [hv, Option.isNone_some] at h
          rw [List.filterMap_cons_some hv, List.map_cons, ← ih h, eq_number_of_some hv]

theorem foldFrom_eq_find? (f : Float → Float → Float) (x : Float) (vs : List (Value β)) :
    foldFrom p f x vs =
      match vs.find? fun v => v.number?.isNone with
      | some v => .error (.wrongType p.name "number" v.shown)
      | none => .ok ((vs.filterMap Value.number?).foldl f x) := by
  induction vs generalizing x with
  | nil => rfl
  | cons v vs ih =>
      rw [foldFrom]
      cases hv : v.number? with
      | none => simp only [number_of_none hv, List.find?_cons, hv, Option.isNone_none]
      | some y =>
          simp only [number_of_some hv, List.find?_cons, hv, Option.isNone_some,
            List.filterMap_cons, List.foldl_cons]
          exact ih (f x y)

theorem fold_eq_find? (A : Arithmetic) (vs : List (Value β)) :
    fold p A.operation A.seed vs =
      match vs.find? fun v => v.number?.isNone with
      | some v => .error (.wrongType p.name "number" v.shown)
      | none => .ok (A.total (vs.filterMap Value.number?)) := by
  cases vs with
  | nil => rfl
  | cons v vs =>
      rw [fold]
      cases hv : v.number? with
      | none => simp only [number_of_none hv, List.find?_cons, hv, Option.isNone_none]
      | some x =>
          simp only [number_of_some hv, List.find?_cons, hv, Option.isNone_some,
            List.filterMap_cons]
          exact foldFrom_eq_find? A.operation x vs

end

/-!
# Application
-/

variable {p : Primitive} {A : Arithmetic}

theorem apply_eq_fold (h : p.arithmetic? = some A) (vs : List (Value β)) :
    p.apply vs =
      Run.ofExcept (fold p A.operation A.seed vs) >>= fun x => pure (.number x) := by
  cases p with
  | add | subtract | multiply | divide | remainder =>
      cases h
      rfl
  | _ => cases h

/-- An arithmetic primitive leaves the store alone. -/
theorem apply_eq_ending (h : p.arithmetic? = some A) (vs : List (Value β)) (s : Store β) :
    p.apply vs s = some (A.ending p vs, s) := by
  rw [apply_eq_fold h, fold_eq_find?, Arithmetic.ending]
  cases vs.find? fun v => v.number?.isNone with
  | none => rfl
  | some v => rfl

/-- Folding a first part of the arguments, and then its total with the rest, is folding them all; a
fault in the first part is the fault of the whole. -/
theorem apply_append (h : p.arithmetic? = some A) {vs : List (Value β)} (hvs : vs ≠ [])
    (ws : List (Value β)) :
    p.apply (vs ++ ws) = p.apply vs >>= fun v => p.apply (v :: ws) := by
  funext s
  have hfirst := apply_eq_ending h vs s
  rw [apply_eq_ending h, Arithmetic.ending, List.find?_append]
  rw [Arithmetic.ending] at hfirst
  cases hfind : vs.find? fun v => v.number?.isNone with
  | some v =>
      rw [hfind] at hfirst
      rw [Run.bind_of_error hfirst]
      rfl
  | none =>
      rw [hfind] at hfirst
      rw [Run.bind_of_ok hfirst, apply_eq_ending h, Arithmetic.ending, List.filterMap_append]
      cases hxs : vs.filterMap Value.number? with
      | nil =>
          have hempty := eq_map_number hfind
          rw [hxs] at hempty
          exact absurd hempty hvs
      | cons x xs =>
          rw [List.cons_append]
          simp only [Arithmetic.total, List.foldl_append]
          rfl

/-!
# Calls
-/

theorem evaluate_call {head : Val} (hhead : Keyword.ofHead? head = none) {es : List Val}
    {operator : Code} {operands : List Code} {s t : Store Code} {k m : Identity}
    (hoperator : Code.analyze head s.nextIdentity = .ok (operator, k))
    (hoperands : Code.analyzeEach es k = .ok (operands, m)) {depth : Nat} {env : Env}
    (hrun : operator.run depth env { s with nextIdentity := m } = some (.ok (.primitive p), t))
    (id : Identity) :
    evaluate (depth + 1) (.list id (head :: es)) env s =
      ((operands.mapM fun operand : Code => operand.run depth env) >>= p.apply) t := by
  have hanalyze : Code.analyze (.list id (head :: es)) s.nextIdentity =
      .ok (.application operator operands, m) := by
    rw [Code.analyze_application hhead]
    exact Analysis.bind_eq_ok.mpr ⟨operator, k, hoperator,
      Analysis.bind_eq_ok.mpr ⟨operands, m, hoperands, rfl⟩⟩
  calc evaluate (depth + 1) (.list id (head :: es)) env s
    _ = (Code.application operator operands).run (depth + 1) env { s with nextIdentity := m } :=
        Run.bind_of_ok (Run.analyze_of_ok hanalyze)
    _ = _ := by
        rw [Code.run]
        exact Run.bind_of_ok hrun

/-- An arithmetic primitive gives its seed without arguments, folds numbers from the left starting
from the first, and stops at the first argument that is no number.  So its arguments can be folded
in two parts, wherever the first part ends.  A call does the same to what its operands give, in any
environment. -/
theorem arithmetic_folds (h : p.arithmetic? = some A) :
    (∀ s : Store Code, p.apply [] s = some (.ok (.number A.seed), s)) ∧
    (∀ x xs (s : Store Code), p.apply ((x :: xs).map .number) s =
      some (.ok (.number (xs.foldl A.operation x)), s)) ∧
    (∀ (xs : List Float) (v : Val) vs s, v.number? = none →
      p.apply (xs.map .number ++ v :: vs) s =
        some (.error { cause := .wrongType p.name "number" v.shown }, s)) ∧
    (∀ vs ws : List Val, vs ≠ [] →
      p.apply (vs ++ ws) = p.apply vs >>= fun v => p.apply (v :: ws)) ∧
    ∀ head, Keyword.ofHead? head = none → ∀ es operator operands s t k m depth env id,
      Code.analyze head s.nextIdentity = .ok (operator, k) →
      Code.analyzeEach es k = .ok (operands, m) →
      operator.run depth env { s with nextIdentity := m } = some (.ok (.primitive p), t) →
      evaluate (depth + 1) (.list id (head :: es)) env s =
        ((operands.mapM fun operand : Code => operand.run depth env) >>= p.apply) t := by
  refine ⟨fun s => ?_, fun x xs s => ?_, fun xs v vs s hv => ?_, ?_, ?_⟩
  · exact apply_eq_ending h [] s
  · rw [apply_eq_ending h, Arithmetic.ending_numbers]
    rfl
  · rw [apply_eq_ending h, Arithmetic.ending_of_not_number A p xs hv]
  · exact fun vs ws hvs => apply_append h hvs ws
  · exact fun head hhead es operator operands s t k m depth env id hoperator hoperands hrun =>
      evaluate_call hhead hoperator hoperands hrun id

def subtraction : Val :=
  .list 0 [.symbol ⟨"-"⟩, .number 7, .symbol ⟨"x"⟩, .number 2]

theorem arithmetic_folds_subtract :
    let s : Store Code :=
      { frames := #[{ bindings := [(⟨"-"⟩, .primitive .subtract), (⟨"x"⟩, .bool false)] }] }
    subtract.arithmetic? = some ⟨fun x y => x - y, 0⟩ ∧
    subtract.apply [.number 7, .number 2, .bool true, .undefined] s =
      some (.error { cause := .wrongType "-" "number" "#t" }, s) ∧
    subtract.apply ([.number 7, .bool true] ++ [.number 2]) =
      (subtract.apply [.number 7, .bool true] >>= fun v => subtract.apply [v, .number 2] :
        Run Code Val) ∧
    evaluate 3 subtraction ⟨0, []⟩ s =
      some (.error { cause := .wrongType "-" "number" "#f" }, s) := by
  intro s
  rcases arithmetic_folds (p := subtract) rfl with ⟨_, _, hstops, happend, hcall⟩
  have hnonempty : ([.number 7, .bool true] : List Val) ≠ [] := List.cons_ne_nil _ _
  refine ⟨rfl, hstops [7, 2] (.bool true) [.undefined] s rfl, happend _ _ hnonempty, ?_⟩
  have hoperands : Code.analyzeEach [.number 7, .symbol ⟨"x"⟩, .number 2] 0 =
      .ok ([.literal (.number 7), .reference ⟨"x"⟩, .literal (.number 2)], 0) := by
    simp only [Code.analyzeEach, Code.analyze]
    rfl
  have hoperator : Code.analyze (.symbol ⟨"-"⟩) 0 = .ok (.reference ⟨"-"⟩, 0) := by
    rw [Code.analyze_symbol]
    rfl
  rw [subtraction, hcall _ (by decide) _ _ _ s s 0 0 2 ⟨0, []⟩ 0 hoperator hoperands rfl]
  rfl

end Primitive
end MiniLisp
