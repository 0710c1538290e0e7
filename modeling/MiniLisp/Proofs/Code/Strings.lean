import MiniLisp.Proofs.Code.Invariant
import MiniLisp.Proofs.Store.Lineage

/-!
# The strings of a program

Running code makes no strings but those of one character that `chr` answers.  All others are
literals of the code, or were bound in the store or held in an argument before.  So a property of
strings that those of one character have is kept by running code, by calls and by evaluation.

## Main statements

* `stringsInvariant_kept`: what running code and calls keep.
* `strings_of_evaluate`: what an evaluation keeps.
-/

namespace MiniLisp

def Value.Strings (P : String → Prop) (v : Val) : Prop :=
  ∀ contents, (Value.atom (.string contents)).OccursIn v → P contents

def Code.Strings (P : String → Prop) (code : Code) : Prop :=
  ∀ contents, (Value.atom (.string contents)).OccursInCode code → P contents

def Store.Strings (P : String → Prop) (s : Store Code) : Prop :=
  ∀ f x v, s.find? f x = some v → v.Strings P

variable {P : String → Prop}

namespace Value

theorem strings_atom {a : Atom} (h : ∀ contents, a = .string contents → P contents) :
    Strings P (.atom a) := by
  apply throughout_atom
  intro contents heq
  cases heq
  exact h contents rfl

theorem strings_primitive (p : Primitive) : Strings P (.primitive p) :=
  throughout_primitive fun _ => nofun

theorem strings_undefined : Strings P .undefined :=
  throughout_undefined fun _ => nofun

theorem strings_list {id : Identity} {items : List Val} (h : ∀ v ∈ items, v.Strings P) :
    Strings P (.list id items) :=
  throughout_list (fun _ => nofun) h

theorem strings_procedure {id : Identity} {ps : List Symbol} {body : Code} {env : Env}
    (h : body.Strings P) :
    Strings P (.procedure id ps body env) :=
  throughout_procedure (fun _ => nofun) h

end Value

namespace Code

theorem Translates.strings {n m : Identity} {e : Val} {code : Code}
    (h : Translates n e code m) (he : e.Strings P) :
    code.Strings P := by
  intro contents hoccurs
  rcases h.occurs hoccurs with hoccurs | hmade
  · exact he contents hoccurs
  · cases hmade

end Code

theorem Store.Strings.allBound {s : Store Code} (hs : s.Strings P) : s.AllBound (Value.Strings P) :=
  hs

/-!
# Strings that primitives answer
-/

theorem Run.eq_of_ofExcept {β α : Type} {a : Except Fault.Cause α} {s t : Store β} {x : α}
    (h : Run.ofExcept a s = some (.ok x, t)) :
    a = .ok x := by
  cases a with
  | ok y =>
      cases h
      rfl
  | error cause => cases h

namespace Primitive

theorem eq_of_characterText {v : Val} {text : String} (h : characterText v = .ok text) :
    ∃ c : Char, text = c.toString := by
  unfold characterText at h
  split at h
  · cases h
    exact ⟨_, rfl⟩
  · cases h

theorem string_of_apply {p : Primitive} {vs : List Val} {s t : Store Code} {contents : String}
    (h : p.apply vs s = some (.ok (.atom (.string contents)), t)) :
    (∃ c : Char, contents = c.toString) ∨ Finds vs (.atom (.string contents)) := by
  have harithmetic : ∀ (f : Float → Float → Float) (seed : Float),
      (Run.ofExcept (fold p f seed vs) >>= fun x => pure (.number x)) s ≠
        some (.ok (.atom (.string contents) : Val), t) := by
    intro f seed h
    rcases Run.bind_eq_some h with ⟨x, u, _, h⟩ | ⟨fault, _, h⟩
    · cases h
    · cases h
  cases p with
  | add => exact absurd h (harithmetic _ _)
  | subtract => exact absurd h (harithmetic _ _)
  | multiply => exact absurd h (harithmetic _ _)
  | divide => exact absurd h (harithmetic _ _)
  | remainder => exact absurd h (harithmetic _ _)
  | chr =>
      rcases Run.bind_eq_some h with ⟨text, u, htext, h⟩ | ⟨fault, _, h⟩
      · cases h
        exact .inl (eq_of_characterText (Run.eq_of_ofExcept htext))
      · cases h
  | car =>
      rcases Run.bind_eq_some h with ⟨items, u, hitems, h⟩ | ⟨fault, _, h⟩
      · cases items with
        | nil => cases h
        | cons v rest =>
            cases h
            exact .inr (finds_of_items (Run.eq_of_ofExcept hitems) (.head _))
      · cases h
  | cdr =>
      rcases Run.bind_eq_some h with ⟨items, u, _, h⟩ | ⟨fault, _, h⟩
      · cases h
      · cases h
  | _ => cases h

end Primitive

/-!
# Running code
-/

structure StringsEnd {α : Type} (P : String → Prop) (Q : α → Prop) (r : Except Fault α)
    (t : Store Code) : Prop where
  store : t.Strings P
  result : ∀ x, r = .ok x → Q x

theorem stringsEnd_of_value {α : Type} {Q : α → Prop} {t : Store Code} (ht : t.Strings P) {x : α}
    (hx : Q x) :
    StringsEnd P Q (.ok x) t := by
  refine ⟨ht, ?_⟩
  intro y hy
  cases hy
  exact hx

theorem stringsEnd_of_fault {α : Type} {Q : α → Prop} {t : Store Code} (ht : t.Strings P)
    (fault : Fault) :
    StringsEnd P Q (.error fault) t :=
  ⟨ht, nofun⟩

def stringsInvariant (P : String → Prop) : Invariant Unit where
  grows _ _ := True
  store _ s := s.Strings P
  value _ v := v.Strings P
  code _ code := code.Strings P
  env _ _ := True

open Invariant (ends_of_refl)

theorem stringsInvariant_kept (hcharacters : ∀ c : Char, P c.toString) :
    (stringsInvariant P).Kept where
  refl := fun _ => trivial
  trans := fun _ _ => trivial
  value_grows := fun _ hv => hv
  code_grows := fun _ hcode => hcode
  env_grows := fun _ _ => trivial
  undefined := fun _ => Value.strings_undefined
  items := Value.Throughout.items
  body := Value.Throughout.body
  closure := fun _ => trivial
  literal := Code.Throughout.literal
  part := Code.Throughout.part
  lambda := Code.Throughout.lambda
  lookup := fun hs hv => Store.AllBound.lookup? hs hv
  bind := fun hs hv => Store.AllBound.bind hs hv
  print := fun hs _ => Store.AllBound.of_frames_eq hs rfl
  answer := by
    intro _ s p vs a t _ hvs h
    apply Value.strings_atom
    rintro contents rfl
    rcases Primitive.string_of_apply h with ⟨c, rfl⟩ | hfinds
    · exact hcharacters c
    · cases hfinds with
      | argument hv => exact hvs _ hv contents .self
      | item hlist hv => exact hvs _ hlist contents (.item hv .self)
  list := fun hs hitems =>
    ends_of_refl trivial (Store.AllBound.of_frames_eq hs rfl) (Value.strings_list hitems)
  procedure := fun hs hbody _ =>
    ends_of_refl trivial (Store.AllBound.of_frames_eq hs rfl) (Value.strings_procedure hbody)
  extend := fun hs _ hvs =>
    ends_of_refl trivial (Store.AllBound.extend hs hvs Value.strings_undefined _ _) trivial
  analyze := fun hs he htranslates =>
    ends_of_refl trivial (Store.AllBound.of_frames_eq hs rfl) (htranslates.strings he)

theorem strings_of_evaluate {depth : Nat} {e : Val} {env : Env} {s t : Store Code}
    {r : Except Fault Val} (h : evaluate depth e env s = some (r, t))
    (hcharacters : ∀ c : Char, P c.toString) (hs : s.Strings P) (he : e.Strings P) :
    StringsEnd P (Value.Strings P) r t := by
  rcases (stringsInvariant_kept hcharacters).evaluate h hs (i := ()) trivial he with
    ⟨_, _, ht, hr⟩
  exact ⟨ht, hr⟩

end MiniLisp
