import MiniLisp.Proofs.Code.Invariant
import MiniLisp.Proofs.Store.Lineage

/-!
# Evaluation keeps the store well formed

From a well-formed store on, code that leads into the store ends in a well-formed store, and with a
value that leads into that one.  This is so of a fault in the middle of a run as well.

## Main statement

* `Lineage.invariant_kept`: running code, calls and evaluation keep the store well formed.
-/

namespace MiniLisp

/-!
# Values and code that lead into the store
-/

def Value.AllRooted (parents : Lineage) (vs : List Val) : Prop :=
  ∀ v ∈ vs, v.Rooted parents

namespace Value

variable {parents : Lineage}

theorem rooted_atom (a : Atom) : Rooted parents (.atom a) :=
  fun _ henv => absurd henv (not_captures_atom a)

theorem rooted_primitive (p : Primitive) : Rooted parents (.primitive p) :=
  fun _ henv => absurd henv (not_captures_primitive p)

theorem rooted_undefined : Rooted parents .undefined :=
  fun _ henv => absurd henv not_captures_undefined

theorem rooted_list {id : Identity} {items : List Val} (h : AllRooted parents items) :
    Rooted parents (.list id items) := by
  intro env henv
  rcases captures_list_iff.mp henv with ⟨v, hv, henv⟩
  exact h v hv env henv

theorem Rooted.items {id : Identity} {items : List Val} (h : Rooted parents (.list id items)) :
    AllRooted parents items :=
  fun _ hv env henv => h env (.item hv henv)

theorem rooted_procedure {id : Identity} {ps : List Symbol} {body : Code} {env : Env}
    (hbody : body.Rooted parents) (henv : parents.Chain env.chain) :
    Rooted parents (.procedure id ps body env) := by
  intro outer houter
  cases houter with
  | here => exact henv
  | body houter => exact hbody outer houter

theorem Rooted.env {id : Identity} {ps : List Symbol} {body : Code} {env : Env}
    (h : Rooted parents (.procedure id ps body env)) :
    parents.Chain env.chain :=
  h env .here

theorem Rooted.body {id : Identity} {ps : List Symbol} {body : Code} {env : Env}
    (h : Rooted parents (.procedure id ps body env)) :
    body.Rooted parents :=
  fun outer houter => h outer (.body houter)

end Value

namespace Code

variable {parents : Lineage}

theorem Rooted.literal {v : Val} (h : (Code.literal v).Rooted parents) : v.Rooted parents :=
  fun env henv => h env (.literal henv)

theorem Rooted.part {code part : Code} (h : code.Rooted parents) (hpart : part ∈ code.parts) :
    part.Rooted parents :=
  fun env henv => h env (.part hpart henv)

theorem Rooted.lambda {ps : List Symbol} {body : Code} (h : (Code.lambda ps body).Rooted parents) :
    body.Rooted parents :=
  fun env henv => h env (.lambda henv)

theorem Translates.rooted {n m : Identity} {e : Val} {code : Code}
    (h : Translates n e code m) (he : e.Rooted parents) :
    code.Rooted parents :=
  fun env henv => he env (h.captures henv)

end Code

/-!
# Running code
-/

namespace Lineage

/-- The store is well formed, and all that is used with it leads into it.  The frames that were
there stay where they were made, and others are added to them. -/
def invariant : Invariant Lineage where
  grows parents more := parents <+: more
  store parents s := s.WellFormed parents
  value parents v := v.Rooted parents
  code parents code := code.Rooted parents
  env parents env := parents.Chain env.chain

theorem invariant_grows (parents added : Lineage) : invariant.grows parents (parents ++ added) :=
  List.prefix_append parents added

open Invariant (ends_of_refl)

variable {parents : Lineage} {s : Store Code}

theorem ends_of_extend (hs : s.WellFormed parents) {env : Env} (henv : parents.Chain env.chain)
    {vs : List Val} (hvs : Value.AllRooted parents vs) (ps : List Symbol) :
    invariant.Ends invariant.env parents (.ok (s.extend env ps vs).1) (s.extend env ps vs).2 := by
  rcases hs.extend henv hvs ps with ⟨hinner, hchain⟩
  refine ⟨_, invariant_grows parents _, hinner, ?_⟩
  intro inner hinner
  cases hinner
  exact hchain

theorem invariant_kept : invariant.Kept where
  refl := List.prefix_refl
  trans := List.IsPrefix.trans
  value_grows := by
    rintro parents _ v ⟨added, rfl⟩ hv
    exact hv.append added
  code_grows := by
    rintro parents _ code ⟨added, rfl⟩ hcode
    exact hcode.append added
  env_grows := by
    rintro parents _ env ⟨added, rfl⟩ henv
    exact henv.append added
  undefined := fun _ => Value.rooted_undefined
  items := Value.Rooted.items
  body := Value.Rooted.body
  closure := Value.Rooted.env
  literal := Code.Rooted.literal
  part := Code.Rooted.part
  lambda := Code.Rooted.lambda
  lookup := fun hs hv => Store.WellFormed.lookup? hs hv
  bind := fun hs hv => Store.WellFormed.bind hs hv
  print := fun hs _ => hs.of_frames_eq rfl
  answer := fun _ _ _ => Value.rooted_atom _
  list := fun hs hitems =>
    ends_of_refl (List.prefix_refl _) (hs.of_frames_eq rfl) (Value.rooted_list hitems)
  procedure := fun hs hbody henv =>
    ends_of_refl (List.prefix_refl _) (hs.of_frames_eq rfl) (Value.rooted_procedure hbody henv)
  extend := fun hs henv hvs => ends_of_extend hs henv hvs _
  analyze := fun hs he htranslates =>
    ends_of_refl (List.prefix_refl _) (hs.of_frames_eq rfl) (htranslates.rooted he)

end Lineage
end MiniLisp
