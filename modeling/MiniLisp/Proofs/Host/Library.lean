import MiniLisp.Proofs.Host
import MiniLisp.Proofs.ListLibrary.Scope

/-!
# Hosts with the list library

A host makes a top level by the actions that it has: it makes an environment, binds the names of the
primitives in it, reads the library and evaluates what it has read.

## Main statement

* `Host.exists_keepsLibrary`: wherever a host is, it can go on to have a top level with the library.
-/

namespace MiniLisp
namespace Host

open ListLibrary
open Toplevel (made)

theorem Has.of_held {h h' : Host} (hheld : ∀ x ∈ h.held, x ∈ h'.held) {x : Thing} (hx : h.Has x) :
    h'.Has x := by
  induction hx with
  | held hmem => exact .held (hheld _ hmem)
  | atom a => exact .atom a
  | primitive p => exact .primitive p
  | undefined => exact .undefined
  | item _ hmem ih => exact .item ih hmem
  | body _ ih => exact .body ih
  | env _ ih => exact .env ih

theorem reaches_bindEach {h : Host} {env : Env} (henv : h.Has (.environment env))
    (ps : List Primitive) :
    Relation.ReflTransGen Host.Step h
      ⟨h.store.bindEach env.innermost (ps.map fun p => (⟨p.name⟩, .primitive p)), h.held⟩ := by
  induction ps generalizing h with
  | nil => exact .refl
  | cons p ps ih =>
      have hstep : h.Step ⟨h.store.define env ⟨p.name⟩ (.primitive p), h.held⟩ := by
        refine .got 0 (.define env ⟨p.name⟩ (.primitive p)) ?_ rfl
        intro x hx
        rcases List.mem_pair.mp hx with rfl | rfl
        · exact henv
        · exact .primitive p
      have henv' : Has ⟨h.store.define env ⟨p.name⟩ (.primitive p), h.held⟩
          (.environment env) := by
        refine Has.of_held ?_ henv
        exact fun _ hx => hx
      exact .head hstep (ih henv')

theorem step_read {h : Host} {d : Datum} {e : Val} {t : Store Code}
    (hmake : Run.makeValue d h.store = some (.ok e, t)) :
    h.Step ⟨t, .value e :: h.held⟩ :=
  .got 0 (.read d) nofun (Run.bind_of_ok hmake)

theorem step_evaluate {h : Host} {depth : Nat} {e v : Val} {env : Env} {t : Store Code}
    (he : h.Has (.value e)) (henv : h.Has (.environment env))
    (heval : evaluate depth e env h.store = some (.ok v, t)) :
    h.Step ⟨t, .value v :: h.held⟩ := by
  refine .got depth (.evaluate e env) ?_ (Run.bind_of_ok heval)
  intro x hx
  rcases List.mem_pair.mp hx with rfl | rfl
  · exact he
  · exact henv

/-- Wherever a host is, it can make a top level with the library. -/
theorem exists_keepsLibrary (h : Host) :
    ∃ h' top, Relation.ReflTransGen Host.Step h h' ∧
      Toplevel.KeepsLibrary top h'.store top.global ∧ ∀ x ∈ h.held, x ∈ h'.held := by
  let env : Env := ⟨h.store.frames.size, []⟩
  rcases Toplevel.exists_loadLibrary ⟨env⟩ (made h.store) with ⟨depth, v, hload⟩
  unfold Toplevel.loadLibrary Toplevel.evalFirst at hload
  rw [first_text, show Run.ofExcept (.ok datum) = pure datum from rfl, pure_bind] at hload
  rcases Run.bind_eq_some hload with ⟨e, t, hmake, heval⟩ | ⟨fault, _, hfault⟩
  · have hnew : h.Step ⟨(h.store.push {}).2, .environment env :: h.held⟩ :=
      .got 0 .newEnv nofun rfl
    have hbind := reaches_bindEach (h := ⟨(h.store.push {}).2, .environment env :: h.held⟩)
      (.held (.head _)) Primitive.every
    have hread := step_read (h := ⟨made h.store, .environment env :: h.held⟩) hmake
    have hevaluate := step_evaluate (h := ⟨t, .value e :: .environment env :: h.held⟩)
      (.held (.head _)) (.held (.tail _ (.head _))) heval
    have hreach := ((Relation.ReflTransGen.single hnew).trans hbind).tail hread
    refine ⟨_, ⟨env⟩, hreach.tail hevaluate, Toplevel.keepsLibrary_loaded h.store, ?_⟩
    intro x hx
    exact .tail _ (.tail _ (.tail _ hx))
  · cases hfault

end Host
end MiniLisp
