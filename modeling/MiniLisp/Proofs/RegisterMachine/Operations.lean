import MiniLisp.RegisterMachine

/-!
# Operations of the register machine

A machine is worked by one operation after another.  What an operation does to a machine is said by
what it does to each register, to what is saved of each register, and to the counts.

## Main statements

* `SavedStack.pop_cases`, `restore_cases`, `execute_cases`: the ways in which the operations that
  can fail end, each with all that it does.
* `operateAll_append`: operations are done one after another.
-/

namespace MiniLisp

namespace SavedStack

variable {β : Type}

/-- Either nothing is saved of the register, or it gets back what was saved last. -/
theorem pop_cases (stack : SavedStack β) (register : Register β) :
    (stack.savedOf register.name = [] ∧
        stack.pop register = .error (.emptyStack register.name)) ∨
      ∃ contents rest after,
        stack.savedOf register.name = contents :: rest ∧
        stack.pop register = .ok ({ register with contents }, after) ∧
        (∀ name, after.savedOf name =
          if register.name = name then rest else stack.savedOf name) ∧
        after.pushes = stack.pushes ∧ after.maxDepth = stack.maxDepth := by
  unfold pop
  cases hsaved : stack.savedOf register.name with
  | nil => exact Or.inl ⟨rfl, rfl⟩
  | cons contents rest =>
      refine Or.inr ⟨contents, rest, _, rfl, rfl, ?_, rfl, rfl⟩
      intro name
      unfold savedOf
      rw [Assoc.find?_put]
      split <;> rfl

end SavedStack

namespace RegisterMachine

variable {β : Type}

/-!
## Registers
-/

def register? (m : RegisterMachine β) (name : Symbol) : Option (Contents β) :=
  (m.registers.find? name).map Register.contents

theorem contents_eq (m : RegisterMachine β) (name : Symbol) :
    m.contents name = (m.register? name).getD .empty := by
  unfold contents register RegisterTable.register register?
  cases m.registers.find? name <;> rfl

theorem register_eq (m : RegisterMachine β) (name : Symbol) :
    m.register name = ⟨name, m.contents name⟩ :=
  congrArg (Register.mk · (m.contents name)) (m.registers.name_register name)

theorem isSome_register? (m : RegisterMachine β) (name : Symbol) :
    (m.register? name).isSome = (m.registers.find? name).isSome :=
  Option.isSome_map

theorem register?_set (m : RegisterMachine β) (name other : Symbol) (contents : Contents β) :
    (m.set name contents).register? other =
      if name = other then some contents else m.register? other := by
  unfold register? set
  rw [RegisterTable.find?_set]
  split <;> rfl

@[simp] theorem contents_set_self (m : RegisterMachine β) (name : Symbol)
    (contents : Contents β) : (m.set name contents).contents name = contents := by
  rw [contents_eq, register?_set, if_pos rfl]
  rfl

theorem register?_allocate (m : RegisterMachine β) (name other : Symbol) :
    (m.allocate name).register? other =
      if name = other then some (m.contents other) else m.register? other := by
  unfold allocate
  split
  · rename_i hmade
    rw [← isSome_register?] at hmade
    rcases Option.isSome_iff_exists.mp hmade with ⟨contents, hcontents⟩
    split
    · rename_i hname
      rw [← hname, contents_eq, hcontents]
      rfl
    · rfl
  · rename_i hnew
    rw [register?_set]
    split
    · rename_i hname
      rw [← isSome_register?] at hnew
      have hnone : m.register? name = none := Option.not_isSome_iff_eq_none.mp hnew
      rw [← hname, contents_eq, hnone]
      rfl
    · rfl

@[simp] theorem contents_allocate (m : RegisterMachine β) (name other : Symbol) :
    (m.allocate name).contents other = m.contents other := by
  rw [contents_eq, register?_allocate]
  split
  · rfl
  · exact (m.contents_eq other).symm

theorem allocate_eq (m : RegisterMachine β) (name : Symbol) :
    m.allocate name = { m with registers := (m.allocate name).registers } := by
  unfold allocate
  split <;> rfl

@[simp] theorem stack_allocate (m : RegisterMachine β) (name : Symbol) :
    (m.allocate name).stack = m.stack := by
  rw [allocate_eq]

theorem save_eq (m : RegisterMachine β) (name : Symbol) :
    m.save name =
      { m.allocate name with stack := m.stack.push ⟨name, m.contents name⟩ } := by
  simp [save, register_eq]

/-- Restoring fails if nothing is saved of the register, and then it only makes the register. -/
theorem restore_cases (m : RegisterMachine β) (name : Symbol) :
    (m.stack.savedOf name = [] ∧
        m.restore name = (.error (.emptyStack name), m.allocate name)) ∨
      ∃ contents rest stack,
        m.stack.savedOf name = contents :: rest ∧
        m.restore name = (.ok (), { (m.allocate name).set name contents with stack }) ∧
        m.stack.pop ⟨name, m.contents name⟩ = .ok (⟨name, contents⟩, stack) ∧
        ∀ other, stack.savedOf other = if name = other then rest else m.stack.savedOf other := by
  simp only [restore, register_eq, stack_allocate, contents_allocate]
  rcases m.stack.pop_cases ⟨name, m.contents name⟩ with
    ⟨hsaved, hpop⟩ | ⟨contents, rest, stack, hsaved, hpop, hafter, _⟩
  · rw [hpop]
    exact Or.inl ⟨hsaved, rfl⟩
  · rw [hpop]
    exact Or.inr ⟨contents, rest, stack, hsaved, rfl, rfl, hafter⟩

theorem foldl_perform (m : RegisterMachine β) (program : List Instruction) :
    program.foldl perform m =
      { m with
        count := m.count + program.length
        trace := m.trace ++ if m.tracing then program.filterMap traceLine? else [] } := by
  induction program generalizing m with
  | nil => simp
  | cons instruction rest ih =>
      rw [List.foldl_cons, ih]
      unfold perform
      cases m.tracing with
      | false => simp [Nat.add_assoc, Nat.add_comm 1]
      | true =>
          cases htrace : traceLine? instruction <;>
            simp [htrace, Nat.add_assoc, Nat.add_comm 1]

/-- Executing fails if `pc` holds a value; otherwise no instruction is left in `pc`. -/
theorem execute_cases (m : RegisterMachine β) :
    (m.contents pc = .empty ∧ m.execute = (.ok (), m.allocate pc)) ∨
      (∃ v, m.contents pc = .value v ∧
        m.execute = (.error (.notProgram v.shown), m.allocate pc)) ∨
      ∃ program, m.contents pc = .program program ∧
        m.execute = (.ok (), (program.foldl perform (m.allocate pc)).set pc (.program [])) := by
  simp only [execute, contents_allocate]
  cases m.contents pc with
  | empty => exact Or.inl ⟨rfl, rfl⟩
  | value v => exact Or.inr (Or.inl ⟨v, rfl, rfl⟩)
  | program program => exact Or.inr (Or.inr ⟨program, rfl, rfl⟩)

theorem stack_execute (m : RegisterMachine β) : m.execute.2.stack = m.stack := by
  rcases m.execute_cases with ⟨_, hexecute⟩ | ⟨_, _, hexecute⟩ | ⟨program, _, hexecute⟩
  · rw [hexecute, stack_allocate]
  · rw [hexecute, stack_allocate]
  · rw [hexecute, foldl_perform]
    exact stack_allocate m pc

/-!
## Operations
-/

inductive Operation (β : Type) where
  | allocate (name : Symbol)
  | lookup (name : Symbol)
  | get (name : Symbol)
  | set (name : Symbol) (contents : Contents β)
  | save (name : Symbol)
  | restore (name : Symbol)
  | clear
  | install (program : List Instruction)
  | setTracing (on : Bool)
  | execute

inductive Answer (β : Type) where
  | done
  | register (register : Register β)
  | contents (contents : Contents β)
  | fault (cause : Fault.Cause)

def Answer.ofExcept : Except Fault.Cause Unit → Answer β
  | .ok _ => .done
  | .error cause => .fault cause

def operate (m : RegisterMachine β) : Operation β → Answer β × RegisterMachine β
  | .allocate name => (.register ((m.allocate name).register name), m.allocate name)
  | .lookup name => (.register ((m.allocate name).register name), m.allocate name)
  | .get name => (.contents ((m.allocate name).contents name), m.allocate name)
  | .set name contents => (.done, m.set name contents)
  | .save name => (.done, m.save name)
  | .restore name => (.ofExcept (m.restore name).1, (m.restore name).2)
  | .clear => (.done, m.clearStack)
  | .install program => (.done, m.install program)
  | .setTracing on => (.done, m.setTracing on)
  | .execute => (.ofExcept m.execute.1, m.execute.2)

/-- Does operations one after another; their answers come first, each beside its operation. -/
def operateAll (m : RegisterMachine β) :
    List (Operation β) → List (Operation β × Answer β) × RegisterMachine β
  | [] => ([], m)
  | operation :: rest =>
      let (answer, next) := m.operate operation
      let (answers, last) := operateAll next rest
      ((operation, answer) :: answers, last)

theorem operateAll_cons (m : RegisterMachine β) (operation : Operation β)
    (rest : List (Operation β)) :
    m.operateAll (operation :: rest) =
      ((operation, (m.operate operation).1) :: ((m.operate operation).2.operateAll rest).1,
        ((m.operate operation).2.operateAll rest).2) := rfl

theorem operateAll_append (m : RegisterMachine β) (first second : List (Operation β)) :
    m.operateAll (first ++ second) =
      ((m.operateAll first).1 ++ ((m.operateAll first).2.operateAll second).1,
        ((m.operateAll first).2.operateAll second).2) := by
  induction first generalizing m with
  | nil => rfl
  | cons operation rest ih =>
      rw [List.cons_append, operateAll_cons, operateAll_cons, ih]
      rfl

end RegisterMachine
end MiniLisp
