import MiniLisp.Proofs.Correspondence.Operations

/-!
# Rules of evaluation

How running code ends, by rules that do not mention a depth: with which value or fault, and in which
store.  A fault in the part of code that runs first is the fault of the whole.

## Main statements

* `Code.evaluates_of_run`: what a run ends with is what the rules say.
* `Code.Evaluates.exists_run`: code that ends by the rules ends so in a run at some depth.
-/

namespace MiniLisp

/-- The part of code that runs before all else. -/
def Code.first? : Code → Option Code
  | .branch test _ _ => some test
  | .andThen first _ => some first
  | .application operator _ => some operator
  | .define _ value => some value
  | .assign _ value => some value
  | _ => none

mutual

/-- Code in an environment, from the first store on, ends with a result in the last store. -/
inductive Code.Evaluates :
    Code → Env → Store Code → Except Fault Val → Store Code → Prop where
  | literal {v env s} :
      Code.Evaluates (.literal v) env s (.ok v) s
  | reference {name env s v} :
      s.lookup? env name = some v →
      Code.Evaluates (.reference name) env s (.ok v) s
  | unbound {name env s} :
      s.lookup? env name = none →
      Code.Evaluates (.reference name) env s (.error { cause := .unbound name }) s
  | consequent {test consequent alternative env s v t r u} :
      Code.Evaluates test env s (.ok v) t →
      v.isTrue = true →
      Code.Evaluates consequent env t r u →
      Code.Evaluates (.branch test consequent alternative) env s r u
  | alternative {test consequent alternative env s v t r u} :
      Code.Evaluates test env s (.ok v) t →
      v.isTrue = false →
      Code.Evaluates alternative env t r u →
      Code.Evaluates (.branch test consequent alternative) env s r u
  | andThen {first second env s v t r u} :
      Code.Evaluates first env s (.ok v) t →
      Code.Evaluates second env t r u →
      Code.Evaluates (.andThen first second) env s r u
  | application {operator operands env s f t vs u r w} :
      Code.Evaluates operator env s (.ok f) t →
      Code.EvaluatesEach operands env t (.ok vs) u →
      Value.Applies f vs u r w →
      Code.Evaluates (.application operator operands) env s r w
  | operandFault {operator operands env s f t fault u} :
      Code.Evaluates operator env s (.ok f) t →
      Code.EvaluatesEach operands env t (.error fault) u →
      Code.Evaluates (.application operator operands) env s (.error fault) u
  | define {name value env s v t} :
      Code.Evaluates value env s (.ok v) t →
      Code.Evaluates (.define name value) env s (.ok v) (t.define env name v)
  | assign {name value env s v t id} :
      Code.Evaluates value env s (.ok v) t →
      t.holder? env name = some id →
      Code.Evaluates (.assign name value) env s (.ok v) (t.bind id name v)
  | assignUnbound {name value env s v t} :
      Code.Evaluates value env s (.ok v) t →
      t.holder? env name = none →
      Code.Evaluates (.assign name value) env s (.error { cause := .unbound name }) t
  | lambda {parameters body env s} :
      Code.Evaluates (.lambda parameters body) env s
        (.ok (.procedure s.nextIdentity parameters body env))
        { s with nextIdentity := s.nextIdentity + 1 }
  | firstFault {code first env s fault t} :
      code.first? = some first →
      Code.Evaluates first env s (.error fault) t →
      Code.Evaluates code env s (.error fault) t

inductive Code.EvaluatesEach :
    List Code → Env → Store Code → Except Fault (List Val) → Store Code → Prop where
  | nil {env s} :
      Code.EvaluatesEach [] env s (.ok []) s
  | cons {c cs env s v t vs u} :
      Code.Evaluates c env s (.ok v) t →
      Code.EvaluatesEach cs env t (.ok vs) u →
      Code.EvaluatesEach (c :: cs) env s (.ok (v :: vs)) u
  | headFault {c cs env s fault t} :
      Code.Evaluates c env s (.error fault) t →
      Code.EvaluatesEach (c :: cs) env s (.error fault) t
  | tailFault {c cs env s v t fault u} :
      Code.Evaluates c env s (.ok v) t →
      Code.EvaluatesEach cs env t (.error fault) u →
      Code.EvaluatesEach (c :: cs) env s (.error fault) u

inductive Value.Applies :
    Val → List Val → Store Code → Except Fault Val → Store Code → Prop where
  | primitive {p vs s r t} :
      p.apply vs s = some (r, t) →
      Value.Applies (.primitive p) vs s r t
  | procedure {id parameters body env vs s r t} :
      Code.Evaluates body (s.extend env parameters vs).1 (s.extend env parameters vs).2 r t →
      Value.Applies (.procedure id parameters body env) vs s r t
  | notCallable {f vs s} :
      (∀ p, f ≠ .primitive p) →
      (∀ id parameters body env, f ≠ .procedure id parameters body env) →
      Value.Applies f vs s (.error { cause := .notCallable f.shown }) s

end

/-!
# Runs peeled apart
-/

namespace Run

variable {β α γ : Type}

theorem bind_eq_some {a : Run β α} {f : α → Run β γ} {s u : Store β} {r : Except Fault γ}
    (h : (a >>= f) s = some (r, u)) :
    (∃ x t, a s = some (.ok x, t) ∧ f x t = some (r, u)) ∨
      ∃ fault, a s = some (.error fault, u) ∧ r = .error fault := by
  rw [bind_eq] at h
  cases ha : a s with
  | none =>
      rw [ha] at h
      cases h
  | some ending =>
      rcases ending with ⟨x, t⟩
      rw [ha] at h
      cases x with
      | ok x => exact Or.inl ⟨x, t, rfl, h⟩
      | error fault =>
          cases h
          exact Or.inr ⟨fault, rfl, rfl⟩

theorem bind_of_ok {a : Run β α} {f : α → Run β γ} {s t : Store β} {x : α}
    (h : a s = some (.ok x, t)) :
    (a >>= f) s = f x t := by
  rw [bind_eq, h]

theorem bind_of_error {a : Run β α} {f : α → Run β γ} {s t : Store β} {fault : Fault}
    (h : a s = some (.error fault, t)) :
    (a >>= f) s = some (.error fault, t) := by
  rw [bind_eq, h]

end Run

namespace Code

/-!
# Runs end by the rules
-/

section

variable {depth : Nat}
  (hruns : ∀ {code : Code} {env : Env} {s t : Store Code} {r : Except Fault Val},
    code.run depth env s = some (r, t) → code.Evaluates env s r t)

include hruns

theorem evaluatesEach_of_mapM {codes : List Code} {env : Env} {s t : Store Code}
    {r : Except Fault (List Val)}
    (h : (codes.mapM fun code => Code.run depth code env) s = some (r, t)) :
    EvaluatesEach codes env s r t := by
  induction codes generalizing s t r with
  | nil =>
      rw [List.mapM_nil] at h
      cases h
      exact .nil
  | cons c cs ih =>
      rw [List.mapM_cons] at h
      rcases Run.bind_eq_some h with ⟨v, m, hc, h⟩ | ⟨fault, hc, rfl⟩
      · rcases Run.bind_eq_some h with ⟨vs, u, hcs, h⟩ | ⟨fault, hcs, rfl⟩
        · cases h
          exact .cons (hruns hc) (ih hcs)
        · exact .tailFault (hruns hc) (ih hcs)
      · exact .headFault (hruns hc)

theorem applies_of_applyWith {f : Val} {vs : List Val} {s t : Store Code} {r : Except Fault Val}
    (h : f.applyWith (Code.run depth) vs s = some (r, t)) :
    f.Applies vs s r t := by
  cases f with
  | primitive p => exact .primitive h
  | procedure id parameters body env => exact .procedure (hruns h)
  | _ =>
      cases h
      exact .notCallable (fun _ => nofun) (fun _ _ _ _ => nofun)

end

theorem evaluates_of_run {depth : Nat} {code : Code} {env : Env} {s u : Store Code}
    {r : Except Fault Val}
    (h : code.run depth env s = some (r, u)) :
    code.Evaluates env s r u := by
  induction depth generalizing code env s u r with
  | zero => cases h
  | succ depth ih =>
      cases code with
      | literal v =>
          cases h
          exact .literal
      | reference name =>
          change Run.lookup env name s = some (r, u) at h
          rcases Run.lookup_cases h with ⟨v, hv, rfl, rfl⟩ | ⟨hv, rfl, rfl⟩
          · exact .reference hv
          · exact .unbound hv
      | branch test consequent alternative =>
          rcases Run.bind_eq_some h with ⟨v, t, htest, h⟩ | ⟨fault, htest, rfl⟩
          · cases hv : v.isTrue with
            | true =>
                rw [if_pos hv] at h
                exact .consequent (ih htest) hv (ih h)
            | false =>
                rw [if_neg (ne_true_of_eq_false hv)] at h
                exact .alternative (ih htest) hv (ih h)
          · exact .firstFault rfl (ih htest)
      | andThen first second =>
          rcases Run.bind_eq_some h with ⟨v, t, hfirst, h⟩ | ⟨fault, hfirst, rfl⟩
          · exact .andThen (ih hfirst) (ih h)
          · exact .firstFault rfl (ih hfirst)
      | application operator operands =>
          rcases Run.bind_eq_some h with ⟨f, t, hoperator, h⟩ | ⟨fault, hoperator, rfl⟩
          · rcases Run.bind_eq_some h with ⟨vs, m, hoperands, h⟩ | ⟨fault, hoperands, rfl⟩
            · exact .application (ih hoperator) (evaluatesEach_of_mapM ih hoperands)
                (applies_of_applyWith ih h)
            · exact .operandFault (ih hoperator) (evaluatesEach_of_mapM ih hoperands)
          · exact .firstFault rfl (ih hoperator)
      | define name value =>
          rcases Run.bind_eq_some h with ⟨v, t, hvalue, h⟩ | ⟨fault, hvalue, rfl⟩
          · cases h
            exact .define (ih hvalue)
          · exact .firstFault rfl (ih hvalue)
      | assign name value =>
          rcases Run.bind_eq_some h with ⟨v, t, hvalue, h⟩ | ⟨fault, hvalue, rfl⟩
          · cases hholder : t.holder? env name with
            | some id =>
                rw [Run.bind_of_ok (Run.assign_of_holder hholder v)] at h
                cases h
                exact .assign (ih hvalue) hholder
            | none =>
                rw [Run.bind_of_error (Run.assign_of_none hholder v)] at h
                cases h
                exact .assignUnbound (ih hvalue) hholder
          · exact .firstFault rfl (ih hvalue)
      | lambda parameters body =>
          cases h
          exact .lambda

theorem applies_of_apply {depth : Nat} {f : Val} {vs : List Val} {s t : Store Code}
    {r : Except Fault Val}
    (h : f.apply depth vs s = some (r, t)) :
    f.Applies vs s r t :=
  applies_of_applyWith evaluates_of_run h

/-!
# What the rules say is run at some depth
-/

theorem mapM_run_mono {depth deeper : Nat} (h : depth ≤ deeper) (codes : List Code) (env : Env) :
    Run.Below (codes.mapM fun code => code.run depth env)
      (codes.mapM fun code => code.run deeper env) :=
  .mapM (fun code => run_mono h code env) codes

theorem applyWith_run_mono {depth deeper : Nat} (h : depth ≤ deeper) (f : Val)
    (vs : List Val) :
    Run.Below (f.applyWith (Code.run depth) vs) (f.applyWith (Code.run deeper) vs) :=
  Value.applyWith_below (run_mono h) f vs

theorem run_of_first?_fault {code first : Code}
    (hfirst : code.first? = some first)
    {depth : Nat} {env : Env} {s t : Store Code} {fault : Fault}
    (h : first.run depth env s = some (.error fault, t)) :
    code.run (depth + 1) env s = some (.error fault, t) := by
  cases code with
  | branch | andThen | application | define | assign =>
      cases hfirst
      exact Run.bind_of_error h
  | _ => cases hfirst

end Code

open Code (run_mono mapM_run_mono applyWith_run_mono run_of_first?_fault evaluates_of_run)

mutual

theorem Code.Evaluates.exists_run {code : Code} {env : Env} {s u : Store Code}
    {r : Except Fault Val}
    (h : code.Evaluates env s r u) :
    ∃ depth, code.run depth env s = some (r, u) := by
  match h with
  | .literal => exact ⟨1, rfl⟩
  | .reference hv => exact ⟨1, Run.lookup_of_some hv⟩
  | .unbound hv => exact ⟨1, Run.lookup_of_none hv⟩
  | .consequent htest hv hconsequent =>
      rcases htest.exists_run with ⟨m, htest⟩
      rcases hconsequent.exists_run with ⟨n, hconsequent⟩
      refine ⟨max m n + 1, ?_⟩
      apply (Run.bind_of_ok (run_mono (Nat.le_max_left m n) _ env _ _ htest)).trans
      rw [if_pos hv]
      exact run_mono (Nat.le_max_right m n) _ env _ _ hconsequent
  | .alternative htest hv halternative =>
      rcases htest.exists_run with ⟨m, htest⟩
      rcases halternative.exists_run with ⟨n, halternative⟩
      refine ⟨max m n + 1, ?_⟩
      apply (Run.bind_of_ok (run_mono (Nat.le_max_left m n) _ env _ _ htest)).trans
      rw [if_neg (ne_true_of_eq_false hv)]
      exact run_mono (Nat.le_max_right m n) _ env _ _ halternative
  | .andThen hfirst hsecond =>
      rcases hfirst.exists_run with ⟨m, hfirst⟩
      rcases hsecond.exists_run with ⟨n, hsecond⟩
      refine ⟨max m n + 1, ?_⟩
      apply (Run.bind_of_ok (run_mono (Nat.le_max_left m n) _ env _ _ hfirst)).trans
      exact run_mono (Nat.le_max_right m n) _ env _ _ hsecond
  | .application hoperator hoperands happlies =>
      rcases hoperator.exists_run with ⟨m, hoperator⟩
      rcases hoperands.exists_run with ⟨n, hoperands⟩
      rcases happlies.exists_run with ⟨k, happlies⟩
      have hm : m ≤ max m (max n k) := Nat.le_max_left m _
      have hn : n ≤ max m (max n k) := (Nat.le_max_left n k).trans (Nat.le_max_right m _)
      have hk : k ≤ max m (max n k) := (Nat.le_max_right n k).trans (Nat.le_max_right m _)
      refine ⟨max m (max n k) + 1, ?_⟩
      apply (Run.bind_of_ok (run_mono hm _ env _ _ hoperator)).trans
      apply (Run.bind_of_ok (mapM_run_mono hn _ env _ _ hoperands)).trans
      exact applyWith_run_mono hk _ _ _ _ happlies
  | .operandFault hoperator hoperands =>
      rcases hoperator.exists_run with ⟨m, hoperator⟩
      rcases hoperands.exists_run with ⟨n, hoperands⟩
      refine ⟨max m n + 1, ?_⟩
      apply (Run.bind_of_ok (run_mono (Nat.le_max_left m n) _ env _ _ hoperator)).trans
      exact Run.bind_of_error (mapM_run_mono (Nat.le_max_right m n) _ env _ _ hoperands)
  | .define hvalue =>
      rcases hvalue.exists_run with ⟨m, hvalue⟩
      exact ⟨m + 1, Run.bind_of_ok hvalue⟩
  | .assign hvalue hholder =>
      rcases hvalue.exists_run with ⟨m, hvalue⟩
      refine ⟨m + 1, ?_⟩
      apply (Run.bind_of_ok hvalue).trans
      exact Run.bind_of_ok (Run.assign_of_holder hholder _)
  | .assignUnbound hvalue hholder =>
      rcases hvalue.exists_run with ⟨m, hvalue⟩
      refine ⟨m + 1, ?_⟩
      apply (Run.bind_of_ok hvalue).trans
      exact Run.bind_of_error (Run.assign_of_none hholder _)
  | .lambda => exact ⟨1, rfl⟩
  | .firstFault hfirst hfault =>
      rcases hfault.exists_run with ⟨m, hfault⟩
      exact ⟨m + 1, run_of_first?_fault hfirst hfault⟩

theorem Code.EvaluatesEach.exists_run {codes : List Code} {env : Env} {s u : Store Code}
    {r : Except Fault (List Val)}
    (h : Code.EvaluatesEach codes env s r u) :
    ∃ depth, (codes.mapM fun code => Code.run depth code env) s = some (r, u) := by
  match h with
  | .nil => exact ⟨0, rfl⟩
  | .cons hc hcs =>
      rcases hc.exists_run with ⟨m, hc⟩
      rcases hcs.exists_run with ⟨n, hcs⟩
      refine ⟨max m n, ?_⟩
      rw [List.mapM_cons, Run.bind_of_ok (run_mono (Nat.le_max_left m n) _ env _ _ hc),
        Run.bind_of_ok (mapM_run_mono (Nat.le_max_right m n) _ env _ _ hcs)]
      rfl
  | .headFault hc =>
      rcases hc.exists_run with ⟨m, hc⟩
      refine ⟨m, ?_⟩
      rw [List.mapM_cons, Run.bind_of_error hc]
  | .tailFault hc hcs =>
      rcases hc.exists_run with ⟨m, hc⟩
      rcases hcs.exists_run with ⟨n, hcs⟩
      refine ⟨max m n, ?_⟩
      rw [List.mapM_cons, Run.bind_of_ok (run_mono (Nat.le_max_left m n) _ env _ _ hc),
        Run.bind_of_error (mapM_run_mono (Nat.le_max_right m n) _ env _ _ hcs)]

theorem Value.Applies.exists_run {f : Val} {vs : List Val} {s u : Store Code}
    {r : Except Fault Val}
    (h : f.Applies vs s r u) :
    ∃ depth, f.applyWith (Code.run depth) vs s = some (r, u) := by
  match h with
  | .primitive hp => exact ⟨0, hp⟩
  | .procedure hbody =>
      rcases hbody.exists_run with ⟨m, hbody⟩
      exact ⟨m, hbody⟩
  | .notCallable hprimitive hprocedure =>
      refine ⟨0, ?_⟩
      cases f with
      | primitive p => exact (hprimitive p rfl).elim
      | procedure id parameters body env => exact (hprocedure id parameters body env rfl).elim
      | _ => rfl

end

end MiniLisp
