import MiniLisp.Proofs.RegisterMachine.Operations

/-!
# Registers that share a machine

All registers of a machine are kept in one table, and all that is saved of them in one stack.  Still
each register could be alone: what the operations on the others do does not show in it.

## Main statements

* `AgreeAt.operate`: where a register and what is saved of it are the same, an operation that
  concerns it has the same answer and leaves them the same.
* `agreeAt_operate`: an operation that does not concern a register leaves it as it is.
* `independent_of_others`: a register fares as if only the operations that concern it were done.
-/

namespace MiniLisp
namespace RegisterMachine

variable {β : Type}

/-- Whether a register takes part in an operation: whether it is named, or everything that is saved
is forgotten, or it is `pc` and the operation is on the program. -/
def Operation.concerns (r : Symbol) : Operation β → Bool
  | .allocate name | .lookup name | .get name | .set name _ | .save name | .restore name =>
      decide (name = r)
  | .clear => true
  | .install _ | .execute => decide (pc = r)
  | .setTracing _ => false

structure AgreeAt (r : Symbol) (m n : RegisterMachine β) : Prop where
  register? : m.register? r = n.register? r
  savedOf : m.stack.savedOf r = n.stack.savedOf r

variable {r : Symbol} {m n k : RegisterMachine β}

theorem AgreeAt.refl (r : Symbol) (m : RegisterMachine β) : AgreeAt r m m :=
  ⟨rfl, rfl⟩

theorem AgreeAt.symm (h : AgreeAt r m n) : AgreeAt r n m :=
  ⟨h.register?.symm, h.savedOf.symm⟩

theorem AgreeAt.trans (h : AgreeAt r m n) (h' : AgreeAt r n k) : AgreeAt r m k :=
  ⟨h.register?.trans h'.register?, h.savedOf.trans h'.savedOf⟩

theorem AgreeAt.contents (h : AgreeAt r m n) : m.contents r = n.contents r := by
  rw [contents_eq, contents_eq, h.register?]

theorem AgreeAt.mem_names (h : AgreeAt r m n) : r ∈ m.names ↔ r ∈ n.names := by
  unfold names
  rw [← RegisterTable.isSome_find?_iff, ← RegisterTable.isSome_find?_iff, ← isSome_register?,
    ← isSome_register?, h.register?]

/-!
## Other registers
-/

theorem agreeAt_set {name : Symbol} (h : name ≠ r) (m : RegisterMachine β)
    (contents : Contents β) : AgreeAt r (m.set name contents) m where
  register? := by
    rw [register?_set, if_neg h]
  savedOf := rfl

theorem agreeAt_allocate {name : Symbol} (h : name ≠ r) (m : RegisterMachine β) :
    AgreeAt r (m.allocate name) m where
  register? := by
    rw [register?_allocate, if_neg h]
  savedOf := by
    rw [stack_allocate]

theorem agreeAt_save {name : Symbol} (h : name ≠ r) (m : RegisterMachine β) :
    AgreeAt r (m.save name) m where
  register? := by
    rw [save_eq]
    exact (agreeAt_allocate h m).register?
  savedOf := by
    rw [save_eq]
    exact (SavedStack.savedOf_push _ _ _).trans (if_neg h)

theorem agreeAt_restore {name : Symbol} (h : name ≠ r) (m : RegisterMachine β) :
    AgreeAt r (m.restore name).2 m := by
  rcases m.restore_cases name with ⟨_, hrestore⟩ | ⟨contents, rest, stack, _, hrestore, _, hsaved⟩
  · rw [hrestore]
    exact agreeAt_allocate h m
  · rw [hrestore]
    constructor
    · exact ((agreeAt_set h _ contents).trans (agreeAt_allocate h m)).register?
    · exact (hsaved r).trans (if_neg h)

theorem agreeAt_foldl_perform (r : Symbol) (m : RegisterMachine β) (program : List Instruction) :
    AgreeAt r (program.foldl perform m) m := by
  rw [foldl_perform]
  exact ⟨rfl, rfl⟩

theorem agreeAt_execute (h : pc ≠ r) (m : RegisterMachine β) : AgreeAt r m.execute.2 m := by
  rcases m.execute_cases with ⟨_, hexecute⟩ | ⟨_, _, hexecute⟩ | ⟨program, _, hexecute⟩
  · rw [hexecute]
    exact agreeAt_allocate h m
  · rw [hexecute]
    exact agreeAt_allocate h m
  · rw [hexecute]
    exact ((agreeAt_set h _ _).trans (agreeAt_foldl_perform r _ program)).trans
      (agreeAt_allocate h m)

/-- An operation that does not concern a register leaves it and what is saved of it as they are. -/
theorem agreeAt_operate {operation : Operation β} (h : operation.concerns r = false)
    (m : RegisterMachine β) : AgreeAt r (m.operate operation).2 m := by
  cases operation with
  | allocate name | lookup name | get name => exact agreeAt_allocate (of_decide_eq_false h) m
  | set name contents => exact agreeAt_set (of_decide_eq_false h) m contents
  | save name => exact agreeAt_save (of_decide_eq_false h) m
  | restore name => exact agreeAt_restore (of_decide_eq_false h) m
  | clear => cases h
  | install program => exact agreeAt_set (of_decide_eq_false h) m _
  | setTracing on => exact ⟨rfl, rfl⟩
  | execute => exact agreeAt_execute (of_decide_eq_false h) m

/-!
## The register itself
-/

theorem AgreeAt.set (h : AgreeAt r m n) (contents : Contents β) :
    AgreeAt r (m.set r contents) (n.set r contents) where
  register? := by
    rw [register?_set, register?_set, if_pos rfl, if_pos rfl]
  savedOf := h.savedOf

theorem AgreeAt.allocate (h : AgreeAt r m n) : AgreeAt r (m.allocate r) (n.allocate r) where
  register? := by
    rw [register?_allocate, register?_allocate, if_pos rfl, if_pos rfl, h.contents]
  savedOf := by
    rw [stack_allocate, stack_allocate, h.savedOf]

theorem AgreeAt.save (h : AgreeAt r m n) : AgreeAt r (m.save r) (n.save r) := by
  rw [save_eq, save_eq]
  constructor
  · exact h.allocate.register?
  · rw [SavedStack.savedOf_push, SavedStack.savedOf_push, if_pos rfl, if_pos rfl, h.savedOf,
      h.contents]

theorem AgreeAt.restore (h : AgreeAt r m n) :
    (m.restore r).1 = (n.restore r).1 ∧ AgreeAt r (m.restore r).2 (n.restore r).2 := by
  rcases m.restore_cases r with ⟨hsaved, hm⟩ | ⟨contents, rest, stack, hsaved, hm, _, hstack⟩ <;>
    rcases n.restore_cases r with
      ⟨hsaved', hn⟩ | ⟨contents', rest', stack', hsaved', hn, _, hstack'⟩ <;>
    rw [h.savedOf, hsaved'] at hsaved
  · rw [hm, hn]
    exact ⟨rfl, h.allocate⟩
  · cases hsaved
  · cases hsaved
  · cases hsaved
    rw [hm, hn]
    refine ⟨rfl, (h.allocate.set contents).register?, ?_⟩
    exact ((hstack r).trans (if_pos rfl)).trans ((hstack' r).trans (if_pos rfl)).symm

theorem AgreeAt.execute (h : AgreeAt pc m n) :
    m.execute.1 = n.execute.1 ∧ AgreeAt pc m.execute.2 n.execute.2 := by
  rcases m.execute_cases with ⟨hm, hexecute⟩ | ⟨v, hm, hexecute⟩ | ⟨program, hm, hexecute⟩ <;>
    rcases n.execute_cases with
      ⟨hn, hexecute'⟩ | ⟨v', hn, hexecute'⟩ | ⟨program', hn, hexecute'⟩ <;>
    rw [h.contents, hn] at hm <;>
    cases hm
  · rw [hexecute, hexecute']
    exact ⟨rfl, h.allocate⟩
  · rw [hexecute, hexecute']
    exact ⟨rfl, h.allocate⟩
  · rw [hexecute, hexecute']
    refine ⟨rfl, AgreeAt.set ?_ _⟩
    exact ((agreeAt_foldl_perform pc _ program).trans h.allocate).trans
      (agreeAt_foldl_perform pc _ program).symm

/-- Where a register and what is saved of it are the same, an operation that concerns it has the
same answer and leaves them the same. -/
theorem AgreeAt.operate (h : AgreeAt r m n) {operation : Operation β}
    (hconcerns : operation.concerns r = true) :
    (m.operate operation).1 = (n.operate operation).1 ∧
      AgreeAt r (m.operate operation).2 (n.operate operation).2 := by
  cases operation with
  | allocate name | lookup name | get name =>
      cases of_decide_eq_true hconcerns
      refine ⟨?_, h.allocate⟩
      simp only [RegisterMachine.operate, register_eq, contents_allocate, h.contents]
  | set name contents =>
      cases of_decide_eq_true hconcerns
      exact ⟨rfl, h.set contents⟩
  | save name =>
      cases of_decide_eq_true hconcerns
      exact ⟨rfl, h.save⟩
  | restore name =>
      cases of_decide_eq_true hconcerns
      exact ⟨congrArg Answer.ofExcept h.restore.1, h.restore.2⟩
  | clear => exact ⟨rfl, h.register?, rfl⟩
  | install program =>
      cases of_decide_eq_true hconcerns
      exact ⟨rfl, h.set _⟩
  | setTracing on => cases hconcerns
  | execute =>
      cases of_decide_eq_true hconcerns
      exact ⟨congrArg Answer.ofExcept h.execute.1, h.execute.2⟩

/-!
## All operations
-/

theorem AgreeAt.operateAll (h : AgreeAt r m n) (operations : List (Operation β)) :
    (m.operateAll operations).1.filter (fun entry => entry.1.concerns r) =
        (n.operateAll (operations.filter fun operation => operation.concerns r)).1 ∧
      AgreeAt r (m.operateAll operations).2
        (n.operateAll (operations.filter fun operation => operation.concerns r)).2 := by
  -- Both machines do the operations that concern the register; of the others, which the second
  -- machine is spared, none shows in it.
  induction operations generalizing m n with
  | nil => exact ⟨rfl, h⟩
  | cons operation rest ih =>
      cases hconcerns : operation.concerns r with
      | true =>
          rcases h.operate hconcerns with ⟨hanswer, hnext⟩
          rcases ih hnext with ⟨hanswers, hlast⟩
          simp only [List.filter_cons, operateAll_cons, hconcerns, if_true]
          rw [hanswer, hanswers]
          exact ⟨rfl, hlast⟩
      | false =>
          simp only [List.filter_cons, operateAll_cons, hconcerns, Bool.false_eq_true, if_false]
          exact ih ((agreeAt_operate hconcerns m).trans h)

def alone (r : Symbol) (operations : List (Operation β)) :
    List (Operation β × Answer β) × RegisterMachine β :=
  new.operateAll (operations.filter fun operation => operation.concerns r)

/-- A register fares as in a machine of its own: it has the same contents, the same is saved of it,
and the operations that concern it have the same answers.  An operation on other registers, whether
it fails or not, leaves it and what is saved of it as they are. -/
theorem independent_of_others (operations : List (Operation β)) (r : Symbol) :
    ((new.operateAll operations).1.filter (fun entry => entry.1.concerns r) =
        (alone r operations).1 ∧
      (new.operateAll operations).2.contents r = (alone r operations).2.contents r ∧
      (new.operateAll operations).2.stack.savedOf r =
        (alone r operations).2.stack.savedOf r ∧
      (r ∈ (new.operateAll operations).2.names ↔ r ∈ (alone r operations).2.names)) ∧
    ∀ (m : RegisterMachine β) (operation : Operation β),
      operation.concerns r = true ∨
        ((m.operate operation).2.contents r = m.contents r ∧
          (m.operate operation).2.stack.savedOf r = m.stack.savedOf r) := by
  rcases (AgreeAt.refl r new).operateAll operations with ⟨hanswers, hlast⟩
  refine ⟨⟨hanswers, hlast.contents, hlast.savedOf, hlast.mem_names⟩, ?_⟩
  intro m operation
  cases hconcerns : operation.concerns r with
  | true => exact Or.inl rfl
  | false =>
      have hsame := agreeAt_operate hconcerns m
      exact Or.inr ⟨hsame.contents, hsame.savedOf⟩

end RegisterMachine
end MiniLisp
