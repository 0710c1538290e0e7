import Mathlib
import MiniLisp.Proofs.RegisterMachine.Operations

/-!
# Saves and restores in pairs

The contents that are saved of a register come back in the opposite order.  If a register is saved
and restored in pairs between a save and a restore, the two belong together, whatever else is done
in between.

## Main statements

* `savedOf_operate`: what one operation does to the saved contents of a register.
* `exists_savedOf_operate`: one operation leaves what lies below the contents saved since.
* `exists_savedOf_operateAll`: the contents that were saved before stay below those saved since.
* `restore_of_balanced`: what was saved before operations in pairs is restored after them.
-/

namespace MiniLisp
namespace RegisterMachine

variable {β : Type}

namespace Operation

def saves (r : Symbol) : Operation β → Bool
  | .save name => decide (name = r)
  | _ => false

/-- Whether an operation restores a register, or tries to. -/
def restores (r : Symbol) : Operation β → Bool
  | .restore name => decide (name = r)
  | _ => false

theorem saves_of_restores {r : Symbol} {operation : Operation β}
    (h : operation.restores r = true) : operation.saves r = false := by
  cases operation with
  | restore name => rfl
  | _ => cases h

end Operation

/-- The operations restore a register as often as they save it, and never more often up to any
point. -/
structure Balanced (r : Symbol) (operations : List (Operation β)) : Prop where
  restores_le : ∀ before, before <+: operations →
    before.countP (Operation.restores r) ≤ before.countP (Operation.saves r)
  restores_eq : operations.countP (Operation.restores r) = operations.countP (Operation.saves r)

/-- An operation that does not forget everything saves the contents of a register, gives up what was
saved last, or leaves what is saved of the register as it is. -/
theorem savedOf_operate (m : RegisterMachine β) (r : Symbol) {operation : Operation β}
    (h : operation ≠ .clear) :
    (m.operate operation).2.stack.savedOf r =
      if operation.saves r then m.contents r :: m.stack.savedOf r
      else if operation.restores r then (m.stack.savedOf r).tail
      else m.stack.savedOf r := by
  cases operation with
  | allocate name | lookup name | get name =>
      exact congrArg (SavedStack.savedOf · r) (stack_allocate m name)
  | set | install | setTracing => rfl
  | save name =>
      simp only [operate, save_eq, SavedStack.savedOf_push, Operation.saves, Operation.restores,
        decide_eq_true_eq, Bool.false_eq_true, if_false]
      split
      · rename_i hname
        rw [hname]
      · rfl
  | restore name =>
      simp only [operate, Operation.saves, Operation.restores, decide_eq_true_eq,
        Bool.false_eq_true, if_false]
      rcases m.restore_cases name with
        ⟨hsaved, hrestore⟩ | ⟨contents, rest, stack, hsaved, hrestore, -, hstack⟩
      · rw [hrestore, stack_allocate]
        split
        · rename_i hname
          rw [← hname, hsaved]
          rfl
        · rfl
      · rw [hrestore]
        refine (hstack r).trans ?_
        split
        · rename_i hname
          rw [← hname, hsaved]
          rfl
        · rfl
  | clear => exact absurd rfl h
  | execute => exact congrArg (SavedStack.savedOf · r) (stack_execute m)

/-- One operation leaves the contents that lie below those saved since, unless it restores the
register when nothing has been saved since. -/
theorem exists_savedOf_operate {m : RegisterMachine β} {r : Symbol} {operation : Operation β}
    {since old : List (Contents β)} (hclear : operation ≠ .clear)
    (hsaved : m.stack.savedOf r = since ++ old)
    (hsince : operation.restores r = true → since ≠ []) :
    ∃ since', (m.operate operation).2.stack.savedOf r = since' ++ old ∧
      since'.length + [operation].countP (Operation.restores r) =
        since.length + [operation].countP (Operation.saves r) := by
  rw [savedOf_operate m r hclear, hsaved, List.countP_singleton, List.countP_singleton]
  cases hrestores : operation.restores r with
  | true =>
      rcases List.exists_cons_of_ne_nil (hsince hrestores) with ⟨contents, rest, rfl⟩
      rw [Operation.saves_of_restores hrestores]
      exact ⟨rest, rfl, rfl⟩
  | false =>
      cases operation.saves r with
      | true => exact ⟨m.contents r :: since, rfl, rfl⟩
      | false => exact ⟨since, rfl, rfl⟩

/-- The contents that were saved before stay, below those that have been saved since and not been
restored. -/
theorem exists_savedOf_operateAll (m : RegisterMachine β) {r : Symbol}
    {operations : List (Operation β)} (hclear : .clear ∉ operations)
    (hle : ∀ before, before <+: operations →
      before.countP (Operation.restores r) ≤ before.countP (Operation.saves r)) :
    ∃ since, (m.operateAll operations).2.stack.savedOf r = since ++ m.stack.savedOf r ∧
      since.length + operations.countP (Operation.restores r) =
        operations.countP (Operation.saves r) := by
  -- the operations grow at their end, so that what has been saved since changes at its front
  induction operations using List.reverseRecOn with
  | nil => exact ⟨[], rfl, rfl⟩
  | append_singleton operations operation ih =>
      have hbegins := List.prefix_append operations [operation]
      rcases ih (fun hmem => hclear (hbegins.subset hmem))
        (fun before hbefore => hle before (hbefore.trans hbegins)) with ⟨since, hsaved, hlength⟩
      have hall := hle (operations ++ [operation]) List.prefix_rfl
      rw [List.countP_append, List.countP_append] at hall ⊢
      have hne : operation ≠ .clear := by
        rintro rfl
        exact hclear (List.mem_append_right _ (List.mem_singleton.mpr rfl))
      have hsince : operation.restores r = true → since ≠ [] := by
        rintro hrestores rfl
        rw [List.countP_singleton, List.countP_singleton, hrestores,
          Operation.saves_of_restores hrestores] at hall
        simp only [List.length_nil, if_true, Bool.false_eq_true, if_false] at hall hlength
        omega
      rcases exists_savedOf_operate hne hsaved hsince with ⟨since', hsaved', hlength'⟩
      rw [operateAll_append]
      exact ⟨since', hsaved', by omega⟩

/-- A register that is saved, and then saved and restored in pairs while anything else is done but
to forget everything, has the old contents when it is restored at the end, and the same is saved of
it as before. -/
theorem restore_of_balanced (m : RegisterMachine β) {r : Symbol} {operations : List (Operation β)}
    (hclear : .clear ∉ operations) (hbalanced : Balanced r operations) :
    ∃ answers after,
      m.operateAll (.save r :: (operations ++ [.restore r])) =
        (answers ++ [(.restore r, .done)], after) ∧
      after.contents r = m.contents r ∧ after.stack.savedOf r = m.stack.savedOf r := by
  rcases exists_savedOf_operateAll (m.save r) hclear hbalanced.restores_le with
    ⟨since, hsaved, hlength⟩
  rw [hbalanced.restores_eq, Nat.add_eq_right, List.length_eq_zero_iff] at hlength
  rw [hlength, List.nil_append, save_eq, SavedStack.savedOf_push, if_pos rfl, ← save_eq] at hsaved
  rcases ((m.save r).operateAll operations).2.restore_cases r with
    ⟨hnone, -⟩ | ⟨contents, rest, stack, hsome, hrestore, -, hstack⟩
  · rw [hsaved] at hnone
    cases hnone
  · rw [hsaved] at hsome
    cases hsome
    rw [operateAll_cons, operateAll_append]
    simp only [operate, operateAll, hrestore]
    refine ⟨_ :: _, _, rfl, ?_, (hstack r).trans (if_pos rfl)⟩
    exact contents_set_self _ r _

def busy : List (Operation Unit) :=
  [.execute, .restore flag, .save pc, .install [{ text := "halt" }], .restore pc,
    .set pc (.value .undefined)]

theorem restore_of_balanced_busy :
    (.clear ∉ busy ∧ Balanced pc busy) ∧
      ∃ answers after,
        (new.install [{ text := "noop" }]).operateAll (.save pc :: (busy ++ [.restore pc])) =
          (answers ++ [(.restore pc, .done)], after) ∧
        after.contents pc = .program [{ text := "noop" }] ∧ after.stack.savedOf pc = [] := by
  have hclear : .clear ∉ busy := by
    simp [busy]
  have hle : ∀ before ∈ busy.inits,
      before.countP (Operation.restores pc) ≤ before.countP (Operation.saves pc) := by
    decide
  have hbalanced : Balanced pc busy :=
    ⟨fun before hbefore => hle before ((List.mem_inits _ _).mpr hbefore), by decide⟩
  exact ⟨⟨hclear, hbalanced⟩, restore_of_balanced _ hclear hbalanced⟩

end RegisterMachine
end MiniLisp
