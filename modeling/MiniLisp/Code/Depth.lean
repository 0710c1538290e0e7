import MiniLisp.Code.Evaluation

/-!
# Nesting deeper changes no answer

Runs are compared by what they answer: one run is *below* another if the other answers whatever
the first one answers.  A run that was not allowed to nest deep enough answers nothing, so it is
below every run.

## Main statements

* `Code.run_mono`: code run to some depth is below the same code run to a greater depth.
* `Code.run_agree`: two depths that both give an answer give the same one.
-/

namespace MiniLisp
namespace Run

variable {β α γ : Type}

/-- Whatever the first run answers, the second one answers too. -/
def Below (a b : Run β α) : Prop :=
  ∀ s answer, a s = some answer → b s = some answer

theorem Below.refl (a : Run β α) : Below a a :=
  fun _ _ h => h

theorem tooDeep_below (a : Run β α) : Below tooDeep a := by
  intro s answer h
  exact absurd h (by simp [tooDeep, ExceptT.mk])

theorem bind_eq (a : Run β α) (f : α → Run β γ) (s : Store β) :
    (a >>= f) s =
      match a s with
      | none => none
      | some (.ok x, t) => f x t
      | some (.error fault, t) => some (.error fault, t) := by
  show (ExceptT.bind a f) s = _
  simp only [ExceptT.bind, ExceptT.mk, bind, StateT.bind]
  cases h : a s with
  | none => rfl
  | some result =>
      obtain ⟨x, t⟩ := result
      cases x <;> rfl

theorem Below.bind {a b : Run β α} {f g : α → Run β γ} (hab : Below a b)
    (hfg : ∀ x, Below (f x) (g x)) : Below (a >>= f) (b >>= g) := by
  intro s answer h
  rw [bind_eq] at h ⊢
  cases ha : a s with
  | none =>
      rw [ha] at h
      exact absurd h (by simp)
  | some result =>
      rw [hab s result ha]
      rw [ha] at h
      obtain ⟨x, t⟩ := result
      cases x with
      | error fault => exact h
      | ok x => exact hfg x t answer h

theorem Below.mapM {δ : Type} {f g : δ → Run β α} (hfg : ∀ x, Below (f x) (g x))
    (items : List δ) : Below (items.mapM f) (items.mapM g) := by
  induction items with
  | nil =>
      simp only [List.mapM_nil]
      exact Below.refl _
  | cons x rest ih =>
      simp only [List.mapM_cons]
      exact Below.bind (hfg x) fun _ => Below.bind ih fun _ => Below.refl _

end Run

open Run (Below)

theorem Value.applyWith_below {β : Type} {f g : β → Env → Run β (Value β)}
    (hfg : ∀ body env, Below (f body env) (g body env)) (operator : Value β)
    (arguments : List (Value β)) :
    Below (operator.applyWith f arguments) (operator.applyWith g arguments) := by
  cases operator with
  | procedure id parameters body env =>
      exact Below.bind (Below.refl _) fun inner => hfg body inner
  | _ => exact Below.refl _

namespace Code

theorem run_succ (depth : Nat) (code : Code) (env : Env) :
    Below (code.run depth env) (code.run (depth + 1) env) := by
  induction depth generalizing code env with
  | zero => exact Run.tooDeep_below _
  | succ depth ih =>
      cases code with
      | literal value => exact Below.refl _
      | reference name => exact Below.refl _
      | branch test consequent alternative =>
          refine Below.bind (ih test env) fun v => ?_
          by_cases h : v.isTrue = true
          · rw [if_pos h, if_pos h]
            exact ih consequent env
          · rw [if_neg h, if_neg h]
            exact ih alternative env
      | andThen first second =>
          exact Below.bind (ih first env) fun _ => ih second env
      | application operator operands =>
          refine Below.bind (ih operator env) fun f => ?_
          refine Below.bind (Below.mapM (fun operand => ih operand env) operands) ?_
          intro arguments
          exact Value.applyWith_below ih f arguments
      | define name value =>
          exact Below.bind (ih value env) fun _ => Below.refl _
      | assign name value =>
          exact Below.bind (ih value env) fun _ => Below.refl _
      | lambda parameters body => exact Below.refl _

/-- Code run to some depth is below the same code run to a greater depth. -/
theorem run_mono {depth deeper : Nat} (h : depth ≤ deeper) (code : Code) (env : Env) :
    Below (code.run depth env) (code.run deeper env) := by
  induction h with
  | refl => exact Below.refl _
  | step _ ih => exact fun s answer hrun => run_succ _ code env s answer (ih s answer hrun)

/-- Two depths that both give an answer give the same one. -/
theorem run_agree {depth other : Nat} {code : Code} {env : Env} {s : Store Code}
    {a b : Except Fault Val × Store Code} (ha : code.run depth env s = some a)
    (hb : code.run other env s = some b) : a = b := by
  have ha := run_mono (Nat.le_max_left depth other) code env s a ha
  have hb := run_mono (Nat.le_max_right depth other) code env s b hb
  rw [ha] at hb
  exact Option.some.inj hb

end Code
end MiniLisp
