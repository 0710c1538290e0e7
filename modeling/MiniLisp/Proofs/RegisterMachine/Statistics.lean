import Mathlib
import MiniLisp.Proofs.RegisterMachine.Operations

/-!
# Statistics of saved contents

A stack counts what has been saved and keeps the greatest depth of a name.  Both are about all that
has ever happened to the stack, and not about what is saved in it now.

## Main statements

* `SavedStack.Step.depth_add_count`: the depth of a name follows what is saved and restored.
* `SavedStack.Chronicle.truthful`: whatever works a stack by such steps finds true statistics.
* `SavedStack.statistics_truthful`: so do the operations of a stack and those of a machine.
* `SavedStack.Chronicle.toNat_statistics`: counters of 64 bits hold the statistics of fewer than
  2 ^ 64 operations.
-/

namespace MiniLisp
namespace SavedStack

variable {β : Type}

/-!
## Depths
-/

theorem depth_push (stack : SavedStack β) (register : Register β) (name : Symbol) :
    (stack.push register).depth name =
      if register.name = name then stack.depth name + 1 else stack.depth name := by
  unfold depth
  rw [savedOf_push]
  split <;> rfl

theorem depth_pop {stack after : SavedStack β} {register restored : Register β}
    (h : stack.pop register = .ok (restored, after)) (name : Symbol) :
    stack.depth name =
      if register.name = name then after.depth name + 1 else after.depth name := by
  rcases stack.pop_cases register with
    ⟨_, hpop⟩ | ⟨contents, rest, after', hsaved, hpop, hafter, _⟩
  · rw [hpop] at h
    cases h
  · rw [hpop] at h
    cases h
    unfold depth
    rw [hafter]
    split
    · rename_i hname
      rw [← hname, hsaved]
      rfl
    · rfl

theorem statistics_pop {stack after : SavedStack β} {register restored : Register β}
    (h : stack.pop register = .ok (restored, after)) :
    after.pushes = stack.pushes ∧ after.maxDepth = stack.maxDepth := by
  rcases stack.pop_cases register with ⟨_, hpop⟩ | ⟨_, _, _, _, hpop, _, hpushes, hmax⟩
  · rw [hpop] at h
    cases h
  · rw [hpop] at h
    cases h
    exact ⟨hpushes, hmax⟩

/-!
## What happens to a stack
-/

inductive Event where
  | saved (name : Symbol)
  | restored (name : Symbol)
  | cleared
  deriving DecidableEq

namespace Event

def isSaved : Event → Bool
  | .saved _ => true
  | _ => false

/-- The events after everything that was saved was last forgotten. -/
def sinceCleared (events : List Event) : List Event :=
  events.rtakeWhile fun event => event ≠ .cleared

theorem sinceCleared_saved (events : List Event) (name : Symbol) :
    sinceCleared (events ++ [.saved name]) = sinceCleared events ++ [.saved name] :=
  List.rtakeWhile_concat_pos _ _ _ rfl

theorem sinceCleared_restored (events : List Event) (name : Symbol) :
    sinceCleared (events ++ [.restored name]) = sinceCleared events ++ [.restored name] :=
  List.rtakeWhile_concat_pos _ _ _ rfl

theorem sinceCleared_cleared (events : List Event) :
    sinceCleared (events ++ [.cleared]) = [] :=
  List.rtakeWhile_concat_neg _ _ _ Bool.false_ne_true

end Event

/-- What may become of a stack at once, and what happens then. -/
inductive Step : List Event → SavedStack β → SavedStack β → Prop where
  | nothing (stack : SavedStack β) : Step [] stack stack
  | push (stack : SavedStack β) (register : Register β) :
      Step [.saved register.name] stack (stack.push register)
  | pop {stack after : SavedStack β} {register restored : Register β} :
      stack.pop register = .ok (restored, after) → Step [.restored register.name] stack after
  | clear (stack : SavedStack β) : Step [.cleared] stack stack.clear

section Step

variable {events added : List Event} {stack after : SavedStack β}

theorem Step.pushes_eq (h : Step added stack after) :
    after.pushes = stack.pushes + added.countP Event.isSaved := by
  cases h with
  | nothing => rfl
  | push => rfl
  | pop hpop => exact (statistics_pop hpop).1
  | clear => rfl

theorem Step.countP_isSaved_le (h : Step added stack after) :
    added.countP Event.isSaved ≤ 1 := by
  have hlength : added.length ≤ 1 := by
    cases h <;> simp
  exact List.countP_le_length.trans hlength

/-- The depth of a name follows what is saved and restored. -/
theorem Step.depth_add_count (h : Step added stack after) {name : Symbol}
    (hstack : stack.depth name + (Event.sinceCleared events).count (.restored name) =
      (Event.sinceCleared events).count (.saved name)) :
    after.depth name + (Event.sinceCleared (events ++ added)).count (.restored name) =
      (Event.sinceCleared (events ++ added)).count (.saved name) := by
  cases h with
  | nothing =>
      rw [List.append_nil]
      exact hstack
  | push _ register =>
      rw [Event.sinceCleared_saved, List.count_append, List.count_append, ← hstack, depth_push]
      simp only [List.count_singleton, beq_iff_eq, Event.saved.injEq, reduceCtorEq, if_false]
      split <;> omega
  | pop hpop =>
      rename_i register _
      rw [Event.sinceCleared_restored, List.count_append, List.count_append, ← hstack,
        depth_pop hpop name]
      simp only [List.count_singleton, beq_iff_eq, Event.restored.injEq, reduceCtorEq, if_false]
      split <;> omega
  | clear =>
      rw [Event.sinceCleared_cleared]
      rfl

theorem Step.maxDepth_le (h : Step added stack after) : stack.maxDepth ≤ after.maxDepth := by
  cases h with
  | nothing => exact le_rfl
  | push => exact le_max_left _ _
  | pop hpop => exact (statistics_pop hpop).2.ge
  | clear => exact le_rfl

theorem Step.maxDepth_eq (h : Step added stack after) :
    after.maxDepth = stack.maxDepth ∨ ∃ name, after.depth name = after.maxDepth := by
  cases h with
  | nothing => exact Or.inl rfl
  | push _ register =>
      rcases max_choice stack.maxDepth (stack.depth register.name + 1) with hmax | hmax
      · exact Or.inl hmax
      · refine Or.inr ⟨register.name, ?_⟩
        rw [depth_push, if_pos rfl]
        exact hmax.symm
  | pop hpop => exact Or.inl (statistics_pop hpop).2
  | clear => exact Or.inl rfl

theorem Step.depth_le (h : Step added stack after)
    (hstack : ∀ name, stack.depth name ≤ stack.maxDepth) (name : Symbol) :
    after.depth name ≤ after.maxDepth := by
  cases h with
  | nothing => exact hstack name
  | push _ register =>
      rw [depth_push]
      split
      · rename_i hname
        rw [← hname]
        exact le_max_right _ _
      · exact (hstack name).trans (le_max_left _ _)
  | pop hpop =>
      rw [(statistics_pop hpop).2]
      refine le_trans ?_ (hstack name)
      rw [depth_pop hpop name]
      split
      · exact Nat.le_succ _
      · exact le_rfl
  | clear => exact Nat.zero_le _

theorem Step.maxDepth_le_pushes (h : Step added stack after)
    (hdepth : ∀ name, stack.depth name ≤ stack.maxDepth) (hstack : stack.maxDepth ≤ stack.pushes) :
    after.maxDepth ≤ after.pushes := by
  cases h with
  | nothing => exact hstack
  | push _ register =>
      apply max_le
      · exact hstack.trans (Nat.le_succ _)
      · exact Nat.succ_le_succ ((hdepth register.name).trans hstack)
  | pop hpop =>
      rw [(statistics_pop hpop).1, (statistics_pop hpop).2]
      exact hstack
  | clear => exact hstack

end Step

/-!
## Whole lives
-/

section Chronicle

variable {ι : Type}

/-- The stack that something leads to, after each row of operations, and the events until then:
every further operation takes one step. -/
structure Chronicle (events : List ι → List Event) (stack : List ι → SavedStack β) : Prop where
  events_nil : events [] = []
  stack_nil : stack [] = {}
  step : ∀ operations operation, ∃ added,
    events (operations ++ [operation]) = events operations ++ added ∧
      Step added (stack operations) (stack (operations ++ [operation]))

structure Truthful (events : List ι → List Event) (stack : List ι → SavedStack β)
    (operations : List ι) : Prop where
  /-- Everything that was ever saved is counted. -/
  pushes_eq : (stack operations).pushes = (events operations).countP Event.isSaved
  /-- The depth of a name is what was saved of it less what was restored. -/
  depth_add_count : ∀ name,
    (stack operations).depth name +
        (Event.sinceCleared (events operations)).count (.restored name) =
      (Event.sinceCleared (events operations)).count (.saved name)
  /-- The greatest depth is the greatest that a name had at any moment. -/
  isGreatest_maxDepth :
    IsGreatest
      {depth | ∃ before name, before <+: operations ∧ (stack before).depth name = depth}
      (stack operations).maxDepth
  /-- The statistics have never been greater. -/
  mono : ∀ before, before <+: operations →
    (stack before).pushes ≤ (stack operations).pushes ∧
      (stack before).maxDepth ≤ (stack operations).maxDepth
  depth_le : ∀ name, (stack operations).depth name ≤ (stack operations).maxDepth
  maxDepth_le : (stack operations).maxDepth ≤ (stack operations).pushes

variable {events : List ι → List Event} {stack : List ι → SavedStack β}

theorem Chronicle.truthful_nil (h : Chronicle events stack) : Truthful events stack [] where
  pushes_eq := by
    rw [h.stack_nil, h.events_nil]
    rfl
  depth_add_count := by
    intro name
    rw [h.stack_nil, h.events_nil]
    rfl
  isGreatest_maxDepth := by
    refine ⟨⟨[], ⟨"pc"⟩, List.prefix_rfl, ?_⟩, ?_⟩
    · rw [h.stack_nil]
      rfl
    · rintro depth ⟨before, name, hbefore, rfl⟩
      rw [List.prefix_nil.mp hbefore, h.stack_nil]
      exact Nat.zero_le _
  mono := by
    intro before hbefore
    cases List.prefix_nil.mp hbefore
    exact ⟨le_rfl, le_rfl⟩
  depth_le := by
    intro name
    rw [h.stack_nil]
    exact Nat.zero_le _
  maxDepth_le := by
    rw [h.stack_nil]

theorem Truthful.concat {operations : List ι} (h : Truthful events stack operations)
    {operation : ι} {added : List Event}
    (hevents : events (operations ++ [operation]) = events operations ++ added)
    (hstep : Step added (stack operations) (stack (operations ++ [operation]))) :
    Truthful events stack (operations ++ [operation]) where
  pushes_eq := by
    rw [hevents, List.countP_append, ← h.pushes_eq]
    exact hstep.pushes_eq
  depth_add_count := by
    intro name
    rw [hevents]
    exact hstep.depth_add_count (h.depth_add_count name)
  isGreatest_maxDepth := by
    constructor
    · rcases hstep.maxDepth_eq with hmax | ⟨name, hname⟩
      · rcases h.isGreatest_maxDepth.1 with ⟨before, name, hbefore, hname⟩
        exact ⟨before, name, hbefore.trans (List.prefix_append _ _), hname.trans hmax.symm⟩
      · exact ⟨_, name, List.prefix_rfl, hname⟩
    · rintro depth ⟨before, name, hbefore, rfl⟩
      rcases List.prefix_concat_iff.mp hbefore with rfl | hbefore
      · exact hstep.depth_le h.depth_le name
      · exact (h.isGreatest_maxDepth.2 ⟨before, name, hbefore, rfl⟩).trans hstep.maxDepth_le
  mono := by
    intro before hbefore
    rcases List.prefix_concat_iff.mp hbefore with rfl | hbefore
    · exact ⟨le_rfl, le_rfl⟩
    · refine ⟨(h.mono before hbefore).1.trans ?_, (h.mono before hbefore).2.trans hstep.maxDepth_le⟩
      rw [hstep.pushes_eq]
      exact Nat.le_add_right _ _
  depth_le := hstep.depth_le h.depth_le
  maxDepth_le := hstep.maxDepth_le_pushes h.depth_le h.maxDepth_le

/-- Whatever works a stack step by step finds true statistics. -/
theorem Chronicle.truthful (h : Chronicle events stack) (operations : List ι) :
    Truthful events stack operations := by
  induction operations using List.reverseRecOn with
  | nil => exact h.truthful_nil
  | append_singleton operations operation ih =>
      rcases h.step operations operation with ⟨added, hevents, hstep⟩
      exact ih.concat hevents hstep

theorem Chronicle.pushes_le_length (h : Chronicle events stack) (operations : List ι) :
    (stack operations).pushes ≤ operations.length := by
  induction operations using List.reverseRecOn with
  | nil =>
      rw [h.stack_nil]
      exact le_rfl
  | append_singleton operations operation ih =>
      rcases h.step operations operation with ⟨added, -, hstep⟩
      rw [hstep.pushes_eq, List.length_append, List.length_singleton]
      exact Nat.add_le_add ih hstep.countP_isSaved_le

/-- Counters of 64 bits hold the statistics of fewer than 2 ^ 64 operations. -/
theorem Chronicle.toNat_statistics (h : Chronicle events stack) {operations : List ι}
    (hlength : operations.length < 2 ^ 64) :
    (stack operations).pushes.toUInt64.toNat = (stack operations).pushes ∧
      (stack operations).maxDepth.toUInt64.toNat = (stack operations).maxDepth := by
  have hpushes := (h.pushes_le_length operations).trans_lt hlength
  have hdepth := (h.truthful operations).maxDepth_le.trans_lt hpushes
  exact ⟨UInt64.toNat_ofNat_of_lt' hpushes, UInt64.toNat_ofNat_of_lt' hdepth⟩

end Chronicle

/-!
## Stacks by themselves
-/

inductive Operation (β : Type) where
  | push (register : Register β)
  | pop (register : Register β)
  | clear

def operate (stack : SavedStack β) : Operation β → List Event × SavedStack β
  | .push register => ([.saved register.name], stack.push register)
  | .pop register =>
      match stack.pop register with
      | .ok (_, after) => ([.restored register.name], after)
      | .error _ => ([], stack)
  | .clear => ([.cleared], stack.clear)

/-- What happens in a row of operations on a new stack, and the stack at the end. -/
def operateAll (operations : List (Operation β)) : List Event × SavedStack β :=
  operations.foldl
    (fun past operation =>
      (past.1 ++ (past.2.operate operation).1, (past.2.operate operation).2))
    ([], {})

theorem operateAll_concat (operations : List (Operation β)) (operation : Operation β) :
    operateAll (operations ++ [operation]) =
      ((operateAll operations).1 ++ ((operateAll operations).2.operate operation).1,
        ((operateAll operations).2.operate operation).2) := by
  simp [operateAll, List.foldl_append]

theorem step_operate (stack : SavedStack β) (operation : Operation β) :
    Step (stack.operate operation).1 stack (stack.operate operation).2 := by
  cases operation with
  | push register => exact .push stack register
  | pop register =>
      rcases stack.pop_cases register with ⟨_, hpop⟩ | ⟨contents, _, after, _, hpop, _⟩
      · simp only [operate, hpop]
        exact .nothing stack
      · simp only [operate, hpop]
        exact .pop hpop
  | clear => exact .clear stack

theorem chronicle_operateAll :
    Chronicle (fun operations : List (Operation β) => (operateAll operations).1)
      (fun operations => (operateAll operations).2) where
  events_nil := rfl
  stack_nil := rfl
  step := by
    intro operations operation
    rw [operateAll_concat]
    exact ⟨_, rfl, step_operate _ operation⟩

end SavedStack

/-!
## Stacks of machines
-/

namespace RegisterMachine

variable {β : Type}

def stackEvents : Operation β × Answer β → List SavedStack.Event
  | (.save name, _) => [.saved name]
  | (.restore name, .done) => [.restored name]
  | (.clear, _) => [.cleared]
  | _ => []

theorem step_stack (m : RegisterMachine β) (operation : Operation β) :
    SavedStack.Step (stackEvents (operation, (m.operate operation).1)) m.stack
      (m.operate operation).2.stack := by
  have hnothing : ∀ after : SavedStack β, after = m.stack → SavedStack.Step [] m.stack after := by
    rintro after rfl
    exact .nothing _
  cases operation with
  | allocate name | lookup name | get name => exact hnothing _ (stack_allocate m name)
  | set | install | setTracing => exact .nothing _
  | save name =>
      simp only [operate, save_eq]
      exact .push m.stack ⟨name, m.contents name⟩
  | restore name =>
      rcases m.restore_cases name with
        ⟨_, hrestore⟩ | ⟨contents, rest, stack, _, hrestore, hpop, _⟩
      · simp only [operate, hrestore]
        exact hnothing _ (stack_allocate m name)
      · simp only [operate, hrestore]
        exact .pop hpop
  | clear => exact .clear _
  | execute => exact hnothing _ (stack_execute m)

theorem chronicle_operateAll :
    SavedStack.Chronicle
      (fun operations : List (Operation β) => (new.operateAll operations).1.flatMap stackEvents)
      (fun operations => (new.operateAll operations).2.stack) where
  events_nil := rfl
  stack_nil := rfl
  step := by
    intro operations operation
    simp only [operateAll_append, List.flatMap_append]
    exact ⟨_, rfl, by simpa [operateAll] using step_stack _ operation⟩

end RegisterMachine

/-- The statistics are true of every stack, whether it is used by itself or by a machine, and
whatever has happened to it since it was new. -/
theorem SavedStack.statistics_truthful {β : Type} :
    (∀ operations : List (SavedStack.Operation β),
      Truthful (fun operations => (SavedStack.operateAll operations).1)
        (fun operations => (SavedStack.operateAll operations).2) operations) ∧
    ∀ operations : List (RegisterMachine.Operation β),
      Truthful
        (fun operations =>
          (RegisterMachine.new.operateAll operations).1.flatMap RegisterMachine.stackEvents)
        (fun operations => (RegisterMachine.new.operateAll operations).2.stack) operations :=
  ⟨SavedStack.chronicle_operateAll.truthful, RegisterMachine.chronicle_operateAll.truthful⟩

/-- A stack that is emptied and filled again still knows how deep it was. -/
example {β : Type} (v : Value β) :
    let stack := (SavedStack.operateAll
      [.push ⟨⟨"x"⟩, .value v⟩, .push ⟨⟨"x"⟩, .empty⟩, .clear, .push ⟨⟨"x"⟩, .value v⟩]).2
    (stack.pushes, stack.maxDepth, stack.depth ⟨"x"⟩) = (3, 2, 1) := by
  rfl

end MiniLisp
