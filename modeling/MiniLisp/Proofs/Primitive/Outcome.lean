import MiniLisp.Code.Depth

/-!
# What primitives can do

A primitive answers an atom, something that it finds in its arguments, or a new list of such things.
It may print a line.  If it fails, then for the type of an argument, and the store stays as it is.

## Main statement

* `Primitive.outcome_of_apply`: applying a primitive does one of these things and nothing else.
-/

namespace MiniLisp
namespace Primitive

variable {β : Type}

inductive Finds (vs : List (Value β)) : Value β → Prop where
  | argument {v} :
      v ∈ vs →
      Finds vs v
  | item {id items v} :
      .list id items ∈ vs →
      v ∈ items →
      Finds vs v
  | missing : Finds vs .undefined

inductive Outcome (p : Primitive) (vs : List (Value β)) (s : Store β) :
    Except Fault (Value β) → Store β → Prop where
  | atom (a : Atom) : Outcome p vs s (.ok (.atom a)) s
  | found {v} :
      Finds vs v →
      Outcome p vs s (.ok v) s
  | list {items} :
      (∀ v ∈ items, Finds vs v) →
      Outcome p vs s (.ok (.list s.nextIdentity items))
        { s with nextIdentity := s.nextIdentity + 1 }
  | print (line : String) :
      Outcome p vs s (.ok .undefined) { s with output := s.output.push line }
  | wrongType (expected shown : String) :
      Outcome p vs s (.error { cause := .wrongType p.name expected shown }) s

/-!
# What is found
-/

theorem argument_mem_or (vs : List (Value β)) (position : Nat) :
    argument vs position ∈ vs ∨ argument vs position = .undefined := by
  unfold argument
  cases h : vs[position]? with
  | none => exact Or.inr rfl
  | some v => exact Or.inl (List.mem_of_getElem? h)

theorem finds_argument (vs : List (Value β)) (position : Nat) :
    Finds vs (argument vs position) := by
  rcases argument_mem_or vs position with hmem | hmissing
  · exact .argument hmem
  · rw [hmissing]
    exact .missing

theorem finds_item {vs items : List (Value β)} {position : Nat} {id : Identity}
    (h : argument vs position = .list id items)
    {v : Value β} (hv : v ∈ items) :
    Finds vs v := by
  rcases argument_mem_or vs position with hmem | hmissing
  · rw [h] at hmem
    exact .item hmem hv
  · rw [h] at hmissing
    cases hmissing

theorem finds_of_items {p : Primitive} {vs items : List (Value β)} {position : Nat}
    (h : Primitive.items p (argument vs position) = .ok items)
    {v : Value β} (hv : v ∈ items) :
    Finds vs v := by
  cases hargument : argument vs position with
  | list id items' =>
      rw [hargument] at h
      cases h
      exact finds_item hargument hv
  | _ =>
      rw [hargument] at h
      cases h

theorem finds_of_consItems {vs : List (Value β)} {v : Value β}
    (hv : v ∈ consItems (argument vs 0) (argument vs 1)) :
    Finds vs v := by
  cases hsecond : argument vs 1 with
  | list id items =>
      rw [hsecond] at hv
      cases hv with
      | head => exact finds_argument vs 0
      | tail _ hv => exact finds_item hsecond hv
  | _ =>
      have hpair : v ∈ [argument vs 0, argument vs 1] := by
        rw [hsecond] at hv ⊢
        exact hv
      cases hpair with
      | head => exact finds_argument vs 0
      | tail _ hv =>
          cases hv with
          | head => exact finds_argument vs 1
          | tail _ hv => cases hv

/-!
# What is reported
-/

theorem number_error {p : Primitive} {v : Value β} {cause : Fault.Cause}
    (h : number p v = .error cause) :
    ∃ shown, cause = .wrongType p.name "number" shown := by
  unfold number at h
  split at h <;> cases h
  exact ⟨_, rfl⟩

theorem foldFrom_error {p : Primitive} {f : Float → Float → Float} {x : Float}
    {vs : List (Value β)} {cause : Fault.Cause}
    (h : foldFrom p f x vs = .error cause) :
    ∃ shown, cause = .wrongType p.name "number" shown := by
  induction vs generalizing x with
  | nil => cases h
  | cons v vs ih =>
      rw [foldFrom] at h
      cases hnumber : number p v with
      | ok y =>
          rw [hnumber] at h
          exact ih h
      | error cause' =>
          rw [hnumber] at h
          cases h
          exact number_error hnumber

theorem fold_error {p : Primitive} {f : Float → Float → Float} {seed : Float}
    {vs : List (Value β)} {cause : Fault.Cause}
    (h : fold p f seed vs = .error cause) :
    ∃ shown, cause = .wrongType p.name "number" shown := by
  cases vs with
  | nil => cases h
  | cons v vs =>
      rw [fold] at h
      cases hnumber : number p v with
      | ok x =>
          rw [hnumber] at h
          exact foldFrom_error h
      | error cause' =>
          rw [hnumber] at h
          cases h
          exact number_error hnumber

theorem items_error {p : Primitive} {v : Value β} {cause : Fault.Cause}
    (h : items p v = .error cause) :
    ∃ shown, cause = .wrongType p.name "list" shown := by
  unfold items at h
  split at h <;> cases h
  exact ⟨_, rfl⟩

theorem characterText_error {v : Value β} {cause : Fault.Cause}
    (h : characterText v = .error cause) :
    ∃ shown, cause = .wrongType chr.name "a code point" shown := by
  unfold characterText at h
  split at h <;> cases h
  exact ⟨_, rfl⟩

/-!
# What is done
-/

theorem outcome_of_ofExcept_bind {α : Type} {p : Primitive} {vs : List (Value β)}
    {s t : Store β} {r : Except Fault (Value β)} {a : Except Fault.Cause α}
    {f : α → Run β (Value β)}
    (herror : ∀ cause, a = .error cause →
      ∃ expected shown, cause = .wrongType p.name expected shown)
    (hok : ∀ x, a = .ok x → f x s = some (r, t) → Outcome p vs s r t)
    (h : (Run.ofExcept a >>= f) s = some (r, t)) :
    Outcome p vs s r t := by
  cases ha : a with
  | ok x =>
      rw [ha] at h
      exact hok x ha h
  | error cause =>
      rw [ha] at h
      cases h
      rcases herror cause ha with ⟨expected, shown, rfl⟩
      exact .wrongType expected shown

/-- Applying a primitive. -/
theorem outcome_of_apply {p : Primitive} {vs : List (Value β)} {s t : Store β}
    {r : Except Fault (Value β)}
    (h : p.apply vs s = some (r, t)) :
    Outcome p vs s r t := by
  have harithmetic : ∀ (f : Float → Float → Float) (seed : Float),
      (Run.ofExcept (fold p f seed vs) >>= fun x => pure (.number x)) s = some (r, t) →
        Outcome p vs s r t := by
    intro f seed
    apply outcome_of_ofExcept_bind
    · intro cause hcause
      exact ⟨_, fold_error hcause⟩
    · intro x _ hx
      cases hx
      exact .atom _
  cases p with
  | add => exact harithmetic _ _ h
  | subtract => exact harithmetic _ _ h
  | multiply => exact harithmetic _ _ h
  | divide => exact harithmetic _ _ h
  | remainder => exact harithmetic _ _ h
  | cons =>
      cases h
      exact .list fun v hv => finds_of_consItems hv
  | car =>
      refine outcome_of_ofExcept_bind (fun cause hcause => ⟨_, items_error hcause⟩) ?_ h
      intro items hitems hend
      cases hend
      cases items with
      | nil => exact .found .missing
      | cons v rest => exact .found (finds_of_items hitems List.mem_cons_self)
  | cdr =>
      refine outcome_of_ofExcept_bind (fun cause hcause => ⟨_, items_error hcause⟩) ?_ h
      intro items hitems hend
      cases hend
      exact .list fun v hv => finds_of_items hitems (List.mem_of_mem_drop hv)
  | list =>
      cases h
      exact .list fun v hv => .argument hv
  | chr =>
      refine outcome_of_ofExcept_bind (fun cause hcause => ⟨_, characterText_error hcause⟩) ?_ h
      intro text _ hend
      cases hend
      exact .atom _
  | identical =>
      cases h
      exact .atom _
  | null =>
      cases h
      exact .atom _
  | pair =>
      cases h
      exact .atom _
  | alert =>
      cases h
      exact .print _

end Primitive
end MiniLisp
