import MiniLisp.Proofs.RegisterMachine.Operations

/-!
# Running a program

Executing takes the instructions out of `pc` one at a time until none is left.  Nothing else of the
machine changes but the count and the trace, which only ever grow.

## Main statements

* `execute_of_cons`, `execute_of_nil`: the two turns of an execution.
* `runs_execute`: an execution takes the whole program, in order.
* `Runs.executed`: what has changed after it.
* `grows_operateAll`: the registers, the count and the trace only grow.
* `execute_runs_once`: all of this for the machines that operations lead to.
-/

namespace MiniLisp
namespace RegisterMachine

variable {β : Type}

/-!
## One turn
-/

theorem set_set (m : RegisterMachine β) (name : Symbol) (contents other : Contents β) :
    (m.set name contents).set name other = m.set name other := by
  simp only [set, RegisterTable.set_set]

theorem set_of_register? {m : RegisterMachine β} {name : Symbol} {contents : Contents β}
    (h : m.register? name = some contents) : m.set name contents = m := by
  rcases Option.map_eq_some_iff.mp h with ⟨register, hregister, rfl⟩
  rw [set, RegisterTable.set_of_find? hregister]

theorem allocate_of_isSome {m : RegisterMachine β} {name : Symbol}
    (h : (m.register? name).isSome = true) : m.allocate name = m :=
  if_pos ((m.isSome_register? name).symm.trans h)

theorem register?_of_contents {m : RegisterMachine β} {name : Symbol}
    {program : List Instruction} (h : m.contents name = .program program) :
    m.register? name = some (.program program) := by
  rw [contents_eq] at h
  cases hmade : m.register? name with
  | none =>
      rw [hmade] at h
      cases h
  | some contents =>
      rw [hmade] at h
      exact congrArg some h

theorem execute_of_program {m : RegisterMachine β} {program : List Instruction}
    (h : m.contents pc = .program program) :
    m.execute = (.ok (), (program.foldl perform m).set pc (.program [])) := by
  have hmade := register?_of_contents h
  simp only [execute, allocate_of_isSome (Option.isSome_of_eq_some hmade), h]

theorem foldl_perform_set (m : RegisterMachine β) (name : Symbol) (contents : Contents β)
    (program : List Instruction) :
    program.foldl perform (m.set name contents) = (program.foldl perform m).set name contents := by
  rw [foldl_perform, foldl_perform]
  rfl

/-- The first instruction is taken out and performed, and then the rest is executed. -/
theorem execute_of_cons {m : RegisterMachine β} {instruction : Instruction}
    {rest : List Instruction} (h : m.contents pc = .program (instruction :: rest)) :
    m.execute = ((m.set pc (.program rest)).perform instruction).execute := by
  have hrest : ((m.set pc (.program rest)).perform instruction).contents pc = .program rest :=
    contents_set_self m pc _
  rw [execute_of_program h, execute_of_program hrest, ← List.foldl_cons, foldl_perform_set, set_set]

theorem execute_of_nil {m : RegisterMachine β} (h : m.contents pc = .program []) :
    m.execute = (.ok (), m) := by
  rw [execute_of_program h, List.foldl_nil, set_of_register? (register?_of_contents h)]

/-!
## All turns
-/

/-- The machine takes these instructions out of `pc` and performs them, one after the other, until
none is left. -/
inductive Runs : List Instruction → RegisterMachine β → RegisterMachine β → Prop where
  | done {m : RegisterMachine β} : m.contents pc = .program [] → Runs [] m m
  | turn {m after : RegisterMachine β} {instruction : Instruction} {rest : List Instruction} :
      m.contents pc = .program (instruction :: rest) →
      Runs rest ((m.set pc (.program rest)).perform instruction) after →
      Runs (instruction :: rest) m after

/-- An execution takes the whole program, in order. -/
theorem runs_execute {m : RegisterMachine β} {program : List Instruction}
    (h : m.contents pc = .program program) : m.execute.1 = .ok () ∧ Runs program m m.execute.2 := by
  induction program generalizing m with
  | nil =>
      rw [execute_of_nil h]
      exact ⟨rfl, .done h⟩
  | cons instruction rest ih =>
      rw [execute_of_cons h]
      have hrest : ((m.set pc (.program rest)).perform instruction).contents pc = .program rest :=
        contents_set_self m pc _
      exact ⟨(ih hrest).1, .turn h (ih hrest).2⟩

/-- What a program leaves behind: it is used up and counted, its labelled instructions are traced
while tracing is on, and all else is as before. -/
structure Executed (program : List Instruction) (m after : RegisterMachine β) : Prop where
  contents_pc : after.contents pc = .program []
  count_eq : after.count = m.count + program.length
  trace_eq : after.trace = m.trace ++
    if m.tracing then
      program.filterMap fun i => i.label.map fun label => label ++ " >>> " ++ i.text
    else []
  tracing_eq : after.tracing = m.tracing
  register?_eq : ∀ name, name ≠ pc → after.register? name = m.register? name
  stack_eq : after.stack = m.stack

theorem Executed.turn {m after : RegisterMachine β} {instruction : Instruction}
    {rest : List Instruction} {contents : Contents β}
    (h : Executed rest ((m.set pc contents).perform instruction) after) :
    Executed (instruction :: rest) m after where
  contents_pc := h.contents_pc
  count_eq := by
    rw [h.count_eq, List.length_cons, Nat.add_comm rest.length, ← Nat.add_assoc]
    rfl
  trace_eq := by
    rw [h.trace_eq]
    cases htracing : m.tracing with
    | false => simp [perform, set, htracing]
    | true =>
        cases hlabel : instruction.label <;>
          simp [perform, set, traceLine?, htracing, hlabel]
  tracing_eq := h.tracing_eq
  register?_eq := by
    intro name hname
    refine (h.register?_eq name hname).trans ?_
    exact (register?_set m pc name contents).trans (if_neg hname.symm)
  stack_eq := h.stack_eq

/-- What all turns leave behind is what each adds to the ones before it. -/
theorem Runs.executed {program : List Instruction} {m after : RegisterMachine β}
    (h : Runs program m after) : Executed program m after := by
  induction h with
  | done hpc => exact ⟨hpc, rfl, by simp, rfl, fun _ _ => rfl, rfl⟩
  | turn _ _ ih => exact ih.turn

/-- Every instruction is counted, but only the one with a label is traced. -/
example :
    let m : RegisterMachine Unit := (new.setTracing true).install
      [{ text := "(assign val 1)" }, { label := some "loop", text := "(test val)" }]
    (m.execute.2.count, m.execute.2.trace) = (2, ["loop >>> (test val)"]) := by
  decide

theorem execute_install_append (m : RegisterMachine β) (first second : List Instruction) :
    ((m.install first).execute.2.install second).execute =
      (m.install (first ++ second)).execute := by
  have hinstall : ∀ (m : RegisterMachine β) program,
      (m.install program).contents pc = .program program := by
    intro m program
    exact contents_set_self m pc _
  rw [execute_of_program (hinstall _ _), execute_of_program (hinstall _ _),
    execute_of_program (hinstall _ _)]
  simp only [install, foldl_perform_set, set_set, List.foldl_append]

/-!
## Whole runs
-/

/-- No register is gone, the count is not lower, and the trace goes on from what it was. -/
structure Grows (m after : RegisterMachine β) : Prop where
  isSome_register? : ∀ name, (m.register? name).isSome = true →
    (after.register? name).isSome = true
  count_le : m.count ≤ after.count
  trace_isPrefix : m.trace <+: after.trace

theorem Grows.refl (m : RegisterMachine β) : Grows m m :=
  ⟨fun _ h => h, Nat.le_refl _, List.prefix_rfl⟩

theorem Grows.trans {m n k : RegisterMachine β} (h : Grows m n) (h' : Grows n k) : Grows m k where
  isSome_register? := fun name hname => h'.isSome_register? name (h.isSome_register? name hname)
  count_le := Nat.le_trans h.count_le h'.count_le
  trace_isPrefix := h.trace_isPrefix.trans h'.trace_isPrefix

theorem grows_set (m : RegisterMachine β) (name : Symbol) (contents : Contents β) :
    Grows m (m.set name contents) where
  isSome_register? := by
    intro other hother
    rw [register?_set]
    split
    · rfl
    · exact hother
  count_le := Nat.le_refl _
  trace_isPrefix := List.prefix_rfl

theorem grows_allocate (m : RegisterMachine β) (name : Symbol) : Grows m (m.allocate name) := by
  unfold allocate
  split
  · exact Grows.refl m
  · exact grows_set m name .empty

theorem Grows.with_stack {m after : RegisterMachine β} (h : Grows m after) (stack : SavedStack β) :
    Grows m { after with stack } :=
  ⟨h.isSome_register?, h.count_le, h.trace_isPrefix⟩

theorem Executed.grows {program : List Instruction} {m after : RegisterMachine β}
    (h : Executed program m after) : Grows m after where
  isSome_register? := by
    intro name hname
    by_cases hpc : name = pc
    · rw [hpc, register?_of_contents h.contents_pc]
      rfl
    · rw [h.register?_eq name hpc]
      exact hname
  count_le := h.count_eq ▸ Nat.le_add_right _ _
  trace_isPrefix := h.trace_eq ▸ List.prefix_append _ _

theorem grows_execute (m : RegisterMachine β) : Grows m m.execute.2 := by
  rcases m.execute_cases with ⟨_, hexecute⟩ | ⟨_, _, hexecute⟩ | ⟨program, hpc, _⟩
  · rw [hexecute]
    exact grows_allocate m pc
  · rw [hexecute]
    exact grows_allocate m pc
  · exact (runs_execute hpc).2.executed.grows

theorem grows_operate (m : RegisterMachine β) (operation : Operation β) :
    Grows m (m.operate operation).2 := by
  cases operation with
  | allocate name | lookup name | get name => exact grows_allocate m name
  | set name contents => exact grows_set m name contents
  | save name =>
      simp only [operate, save_eq]
      exact (grows_allocate m name).with_stack _
  | restore name =>
      rcases m.restore_cases name with ⟨_, hrestore⟩ | ⟨contents, _, stack, _, hrestore, _⟩ <;>
        simp only [operate, hrestore]
      · exact grows_allocate m name
      · exact ((grows_allocate m name).trans (grows_set _ name contents)).with_stack stack
  | clear => exact (Grows.refl m).with_stack _
  | install program => exact grows_set m pc (.program program)
  | setTracing => exact ⟨fun _ h => h, Nat.le_refl _, List.prefix_rfl⟩
  | execute => exact grows_execute m

theorem grows_operateAll (m : RegisterMachine β) (operations : List (Operation β)) :
    Grows m (m.operateAll operations).2 := by
  induction operations generalizing m with
  | nil => exact Grows.refl m
  | cons operation rest ih => exact (grows_operate m operation).trans (ih _)

theorem execute_execute {m : RegisterMachine β} (h : (m.register? pc).isSome = true) :
    m.execute.2.execute = m.execute := by
  rcases m.execute_cases with ⟨_, hexecute⟩ | ⟨_, _, hexecute⟩ | ⟨program, hpc, _⟩
  · rw [allocate_of_isSome h] at hexecute
    rw [hexecute, hexecute]
  · rw [allocate_of_isSome h] at hexecute
    rw [hexecute, hexecute]
  · rcases runs_execute hpc with ⟨hanswer, hruns⟩
    rw [execute_of_nil hruns.executed.contents_pc, ← hanswer]

/-- In every machine that operations lead to, executing a program takes its instructions once, in
order and to the end, and changes nothing but what they leave behind; with an empty `pc` it changes
nothing at all.  Executing again changes nothing, two programs are executed like one, and the count
and the trace only ever grow. -/
theorem execute_runs_once (operations : List (Operation β)) :
    let m := (new.operateAll operations).2
    (∀ program, m.contents pc = .program program →
        m.execute.1 = .ok () ∧ Runs program m m.execute.2 ∧ Executed program m m.execute.2) ∧
      (m.contents pc = .empty → m.execute = (.ok (), m)) ∧
      m.execute.2.execute = m.execute ∧
      (∀ first second, ((m.install first).execute.2.install second).execute =
        (m.install (first ++ second)).execute) ∧
      ∀ before, before <+: operations → Grows (new.operateAll before).2 m := by
  intro m
  have hpc : (m.register? pc).isSome = true :=
    (grows_operateAll new operations).isSome_register? pc rfl
  refine ⟨fun program h => ?_, fun h => ?_, execute_execute hpc, execute_install_append m, ?_⟩
  · rcases runs_execute h with ⟨hanswer, hruns⟩
    exact ⟨hanswer, hruns, hruns.executed⟩
  · rw [execute, allocate_of_isSome hpc, h]
  · rintro before ⟨later, rfl⟩
    simp only [m, operateAll_append]
    exact grows_operateAll _ later

end RegisterMachine
end MiniLisp
