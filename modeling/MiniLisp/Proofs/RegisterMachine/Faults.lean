import MiniLisp.Proofs.RegisterMachine.Brackets
import MiniLisp.Proofs.RegisterMachine.Execution

/-!
# Operations that fail

Two operations can fail: restoring a register of which nothing is saved, and executing while `pc`
holds a value.  Whether something is saved of a register can be told from the operations alone: some
save of it has neither been restored since nor been forgotten.

## Main statements

* `savedOf_ne_nil_iff`: something is saved of a register exactly if a save of it is unrestored.
* `restore_eq_error_iff`, `execute_eq_error_iff`: when the two operations fail, and with what.
* `intact_restore`: a restore that fails has at most made the register, empty.
* `nodup_names_operateAll`: every register is kept under its name once.
* `faults_leave_intact`: all of this for the machines that operations lead to.
-/

namespace MiniLisp
namespace RegisterMachine

variable {β : Type} {r : Symbol}

/-!
## Saves that are unrestored
-/

/-- Among the operations there is a save of the register that has been neither forgotten nor
restored: up to no point after it was the register restored more often than saved again. -/
def Unrestored (r : Symbol) (operations : List (Operation β)) : Prop :=
  ∃ before after, operations = before ++ .save r :: after ∧ .clear ∉ after ∧
    ∀ early, early <+: after →
      early.countP (Operation.restores r) ≤ early.countP (Operation.saves r)

theorem savedOf_ne_nil_of_unrestored (m : RegisterMachine β) {operations : List (Operation β)}
    (h : Unrestored r operations) : (m.operateAll operations).2.stack.savedOf r ≠ [] := by
  rcases h with ⟨before, after, rfl, hclear, hle⟩
  rcases exists_savedOf_operateAll ((m.operateAll before).2.save r) hclear hle with
    ⟨since, hsaved, -⟩
  rw [save_eq, SavedStack.savedOf_push, if_pos rfl, ← save_eq] at hsaved
  rw [operateAll_append, operateAll_cons]
  simp only [operate, hsaved]
  exact List.append_ne_nil_of_right_ne_nil _ (List.cons_ne_nil _ _)

/-- The contents at the bottom of what is saved of a register come from a save that is unrestored;
what lies above them was saved since. -/
structure BottomSave (r : Symbol) (operations before after : List (Operation β)) (depth : Nat) :
    Prop where
  eq_append : operations = before ++ .save r :: after
  not_cleared : .clear ∉ after
  restores_le : ∀ early, early <+: after →
    early.countP (Operation.restores r) ≤ early.countP (Operation.saves r)
  depth_add : depth + after.countP (Operation.restores r) =
    after.countP (Operation.saves r) + 1

theorem BottomSave.concat {operations before after : List (Operation β)} {depth depth' : Nat}
    (h : BottomSave r operations before after depth) {operation : Operation β}
    (hclear : operation ≠ .clear)
    (hdepth : depth' + [operation].countP (Operation.restores r) =
      depth + [operation].countP (Operation.saves r))
    (hpos : 0 < depth') :
    BottomSave r (operations ++ [operation]) before (after ++ [operation]) depth' := by
  have hadd := h.depth_add
  have hall : (after ++ [operation]).countP (Operation.restores r) ≤
      (after ++ [operation]).countP (Operation.saves r) := by
    rw [List.countP_append, List.countP_append]
    omega
  constructor
  · rw [h.eq_append, List.append_assoc]
    rfl
  · rw [List.mem_append, List.mem_singleton]
    exact fun hmem => hmem.elim h.not_cleared hclear.symm
  · intro early hearly
    rcases List.prefix_concat_iff.mp hearly with rfl | hearly
    · exact hall
    · exact h.restores_le early hearly
  · rw [List.countP_append, List.countP_append]
    omega

theorem saves_eq_true {operation : Operation β} (h : operation.saves r = true) :
    operation = .save r := by
  cases operation with
  | save name => rw [of_decide_eq_true h]
  | _ => cases h

theorem exists_bottomSave (operations : List (Operation β))
    (h : (new.operateAll operations).2.stack.savedOf r ≠ []) :
    ∃ before after, BottomSave r operations before after
      ((new.operateAll operations).2.stack.savedOf r).length := by
  -- the operations grow at their end: the last one makes the bottom of the stack, or finds it made
  induction operations using List.reverseRecOn with
  | nil => exact absurd rfl h
  | append_singleton operations operation ih =>
      have hclear : operation ≠ .clear := by
        rintro rfl
        rw [operateAll_append] at h
        exact h rfl
      have hsaved := savedOf_operate (new.operateAll operations).2 r hclear
      rw [operateAll_append] at h ⊢
      simp only [operateAll] at h ⊢
      rw [hsaved] at h ⊢
      cases hold : (new.operateAll operations).2.stack.savedOf r with
      | nil =>
          rw [hold] at h
          have hsaves : operation.saves r = true := by
            by_contra hsaves
            rw [if_neg hsaves] at h
            exact h (ite_self _)
          rw [if_pos hsaves, saves_eq_true hsaves]
          refine ⟨operations, [], rfl, List.not_mem_nil, ?_, rfl⟩
          intro early hearly
          rw [List.prefix_nil.mp hearly]
          exact Nat.le_refl _
      | cons contents rest =>
          rcases ih (by rw [hold]; exact List.cons_ne_nil _ _) with ⟨before, after, hbottom⟩
          rw [hold] at h hbottom
          refine ⟨before, after ++ [operation], ?_⟩
          apply hbottom.concat hclear _ (List.length_pos_of_ne_nil h)
          rw [List.countP_singleton, List.countP_singleton]
          cases hrestores : operation.restores r with
          | true =>
              rw [Operation.saves_of_restores hrestores]
              rfl
          | false => cases operation.saves r <;> rfl

/-- Something is saved of a register exactly if a save of it is unrestored. -/
theorem savedOf_ne_nil_iff (operations : List (Operation β)) :
    (new.operateAll operations).2.stack.savedOf r ≠ [] ↔ Unrestored r operations := by
  constructor
  · intro h
    rcases exists_bottomSave operations h with ⟨before, after, hbottom⟩
    exact ⟨before, after, hbottom.eq_append, hbottom.not_cleared, hbottom.restores_le⟩
  · exact savedOf_ne_nil_of_unrestored new

/-!
## What a failure leaves
-/

theorem names_set (m : RegisterMachine β) (name : Symbol) (contents : Contents β) :
    (m.set name contents).names = if name ∈ m.names then m.names else m.names ++ [name] :=
  m.registers.names_set name contents

theorem isSome_register?_iff (m : RegisterMachine β) (name : Symbol) :
    (m.register? name).isSome = true ↔ name ∈ m.names := by
  rw [isSome_register?]
  exact m.registers.isSome_find?_iff name

theorem names_allocate (m : RegisterMachine β) (name : Symbol) :
    (m.allocate name).names = if name ∈ m.names then m.names else m.names ++ [name] := by
  unfold allocate
  split
  · rename_i hmade
    rw [← isSome_register?] at hmade
    rw [if_pos ((isSome_register?_iff m name).mp hmade)]
  · exact names_set m name .empty

structure Intact (name : Symbol) (m after : RegisterMachine β) : Prop where
  contents_eq : ∀ other, after.contents other = m.contents other
  names_eq : after.names = m.names ∨
    name ∉ m.names ∧ after.names = m.names ++ [name] ∧ after.contents name = .empty
  stack_eq : after.stack = m.stack
  count_eq : after.count = m.count
  trace_eq : after.trace = m.trace
  tracing_eq : after.tracing = m.tracing

theorem intact_allocate (m : RegisterMachine β) (name : Symbol) :
    Intact name m (m.allocate name) where
  contents_eq := contents_allocate m name
  names_eq := by
    rw [names_allocate]
    split
    · exact Or.inl rfl
    · rename_i hnew
      refine Or.inr ⟨hnew, rfl, ?_⟩
      have hnone : m.register? name = none :=
        Option.not_isSome_iff_eq_none.mp fun hmade => hnew ((isSome_register?_iff m name).mp hmade)
      rw [contents_allocate, RegisterMachine.contents_eq, hnone]
      rfl
  stack_eq := stack_allocate m name
  count_eq := by rw [allocate_eq]
  trace_eq := by rw [allocate_eq]
  tracing_eq := by rw [allocate_eq]

/-- A restore fails exactly if nothing is saved of the register. -/
theorem restore_eq_error_iff (m : RegisterMachine β) (name : Symbol) (cause : Fault.Cause) :
    (m.restore name).1 = .error cause ↔
      m.stack.savedOf name = [] ∧ cause = .emptyStack name := by
  rcases m.restore_cases name with ⟨hsaved, hrestore⟩ | ⟨_, _, _, hsaved, hrestore, -⟩
  · rw [hrestore, hsaved]
    simp [eq_comm]
  · rw [hrestore, hsaved]
    simp

/-- A restore that fails has at most made the register, empty. -/
theorem intact_restore {m : RegisterMachine β} {name : Symbol} {cause : Fault.Cause}
    (h : (m.restore name).1 = .error cause) : Intact name m (m.restore name).2 := by
  rcases m.restore_cases name with ⟨_, hrestore⟩ | ⟨_, _, _, _, hrestore, -⟩
  · rw [hrestore]
    exact intact_allocate m name
  · rw [hrestore] at h
    cases h

/-- Executing fails exactly if `pc` holds a value. -/
theorem execute_eq_error_iff (m : RegisterMachine β) (cause : Fault.Cause) :
    m.execute.1 = .error cause ↔
      ∃ v, m.contents pc = .value v ∧ cause = .notProgram v.shown := by
  rcases m.execute_cases with ⟨hpc, hexecute⟩ | ⟨v, hpc, hexecute⟩ | ⟨_, hpc, hexecute⟩
  · rw [hexecute, hpc]
    simp
  · rw [hexecute, hpc]
    simp [eq_comm]
  · rw [hexecute, hpc]
    simp

theorem execute_eq_allocate {m : RegisterMachine β} {cause : Fault.Cause}
    (h : m.execute.1 = .error cause) : m.execute.2 = m.allocate pc := by
  rcases m.execute_cases with ⟨_, hexecute⟩ | ⟨_, _, hexecute⟩ | ⟨_, _, hexecute⟩
  · rw [hexecute]
  · rw [hexecute]
  · rw [hexecute] at h
    cases h

/-!
## The table of registers
-/

theorem nodup_names_new : (new : RegisterMachine β).names.Nodup := by
  change [pc, flag].Nodup
  decide

theorem nodup_names_set {m : RegisterMachine β} (h : m.names.Nodup) (name : Symbol)
    (contents : Contents β) : (m.set name contents).names.Nodup := by
  rw [names_set]
  split
  · exact h
  · rename_i hnew
    refine List.nodup_append.mpr ⟨h, List.nodup_singleton name, ?_⟩
    intro other hother last hlast heq
    rw [List.mem_singleton.mp hlast] at heq
    exact hnew (heq ▸ hother)

theorem nodup_names_allocate {m : RegisterMachine β} (h : m.names.Nodup) (name : Symbol) :
    (m.allocate name).names.Nodup := by
  unfold allocate
  split
  · exact h
  · exact nodup_names_set h name .empty

theorem nodup_names_operate {m : RegisterMachine β} (h : m.names.Nodup)
    (operation : Operation β) : (m.operate operation).2.names.Nodup := by
  cases operation with
  | allocate name | lookup name | get name => exact nodup_names_allocate h name
  | set name contents => exact nodup_names_set h name contents
  | save name =>
      simp only [operate, save_eq]
      exact nodup_names_allocate h name
  | restore name =>
      rcases m.restore_cases name with ⟨_, hrestore⟩ | ⟨contents, _, _, _, hrestore, -⟩ <;>
        simp only [operate, hrestore]
      · exact nodup_names_allocate h name
      · exact nodup_names_set (nodup_names_allocate h name) name contents
  | clear | setTracing => exact h
  | install program => exact nodup_names_set h pc _
  | execute =>
      rcases m.execute_cases with ⟨_, hexecute⟩ | ⟨_, _, hexecute⟩ | ⟨program, _, hexecute⟩ <;>
        simp only [operate, hexecute]
      · exact nodup_names_allocate h pc
      · exact nodup_names_allocate h pc
      · rw [foldl_perform]
        exact nodup_names_set (m := { m.allocate pc with count := _, trace := _ })
          (nodup_names_allocate h pc) pc _

/-- Every register is kept under its name once. -/
theorem nodup_names_operateAll {m : RegisterMachine β} (h : m.names.Nodup)
    (operations : List (Operation β)) : (m.operateAll operations).2.names.Nodup := by
  induction operations generalizing m with
  | nil => exact h
  | cons operation rest ih => exact ih (nodup_names_operate h operation)

theorem name_of_answer {m : RegisterMachine β} {operation : Operation β} {register : Register β}
    (h : (m.operate operation).1 = .register register) :
    operation = .allocate register.name ∨ operation = .lookup register.name := by
  cases operation with
  | allocate name =>
      cases h
      rw [register_eq]
      exact Or.inl rfl
  | lookup name =>
      cases h
      rw [register_eq]
      exact Or.inr rfl
  | restore name =>
      simp only [operate, Answer.ofExcept] at h
      split at h <;> cases h
  | execute =>
      simp only [operate, Answer.ofExcept] at h
      split at h <;> cases h
  | _ => cases h

/-- In every machine that operations lead to, restoring a register fails exactly if no save of it is
unrestored, and executing fails exactly if `pc` holds a value.  A failure changes nothing, but that
the register that was named may have been made, empty.  The registers `pc` and `flag` are there, no
register ever goes, and each is kept once, under its own name. -/
theorem faults_leave_intact (operations : List (Operation β)) :
    let m := (new.operateAll operations).2
    (∀ name,
        ((∃ cause, (m.restore name).1 = .error cause) ↔ ¬ Unrestored name operations) ∧
        ∀ cause, (m.restore name).1 = .error cause →
          cause = .emptyStack name ∧ Intact name m (m.restore name).2) ∧
      ((∃ cause, m.execute.1 = .error cause) ↔ ∃ v, m.contents pc = .value v) ∧
      (∀ cause, m.execute.1 = .error cause → m.execute.2 = m) ∧
      pc ∈ m.names ∧ flag ∈ m.names ∧
      (∀ before, before <+: operations → (new.operateAll before).2.names ⊆ m.names) ∧
      m.names.Nodup ∧
      ∀ operation register, (m.operate operation).1 = .register register →
        operation = .allocate register.name ∨ operation = .lookup register.name := by
  intro m
  have hgrows : ∀ before, before <+: operations → Grows (new.operateAll before).2 m := by
    rintro before ⟨later, rfl⟩
    simp only [m, operateAll_append]
    exact grows_operateAll _ later
  have hkept : ∀ before, before <+: operations → (new.operateAll before).2.names ⊆ m.names := by
    intro before hbefore name hname
    rw [← isSome_register?_iff] at hname ⊢
    exact (hgrows before hbefore).isSome_register? name hname
  have hpc : pc ∈ m.names := hkept [] List.nil_prefix (.head _)
  refine ⟨fun name => ⟨?_, ?_⟩, ?_, ?_, hpc, hkept [] List.nil_prefix (.tail _ (.head _)), hkept,
    nodup_names_operateAll nodup_names_new operations, fun _ _ => name_of_answer⟩
  · simp only [restore_eq_error_iff, exists_and_left, exists_eq, and_true]
    rw [← savedOf_ne_nil_iff, not_not]
  · exact fun cause h => ⟨((restore_eq_error_iff m name cause).mp h).2, intact_restore h⟩
  · simp only [execute_eq_error_iff]
    exact ⟨fun ⟨_, v, hv, _⟩ => ⟨v, hv⟩, fun ⟨v, hv⟩ => ⟨_, v, hv, rfl⟩⟩
  · intro cause h
    rw [execute_eq_allocate h, allocate_of_isSome ((isSome_register?_iff m pc).mpr hpc)]

end RegisterMachine
end MiniLisp
