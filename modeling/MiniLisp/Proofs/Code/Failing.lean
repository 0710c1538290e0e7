import MiniLisp.Proofs.Code.Quiet

/-!
# Quiet failures

A quiet run may also end with a fault, having printed nothing and having left every frame that was
there as it was.  The part of code that fails makes the whole fail with the same cause, provided
that the parts that run before it end with values.

## Main statements

* `Code.Fails.operand`: an application fails with its first operand that fails.
* `Value.fails_procedure`: a call fails with the body.
* `Code.Fails.reports`: as code fails, so it does at every depth from some depth on.
-/

namespace MiniLisp

/-- From a store, and from all that quiet runs make of it, code runs quietly and fails. -/
def Code.Fails (code : Code) (env : Env) (s : Store Code) (cause : Fault.Cause) : Prop :=
  ∀ t, s.Undisturbed t → ∃ u, code.Evaluates env t (.error { cause }) u ∧ t.Undisturbed u

def Value.Fails (f : Val) (vs : List Val) (s : Store Code) (cause : Fault.Cause) : Prop :=
  ∀ t, s.Undisturbed t → ∃ u, f.Applies vs t (.error { cause }) u ∧ t.Undisturbed u

/-- At every depth from some depth on, code ends with a fault that blames no form, having printed
nothing and changed no frame that was there. -/
def Code.Reports (code : Code) (env : Env) (s : Store Code) (cause : Fault.Cause) : Prop :=
  ∃ least t, (∀ depth, least ≤ depth → code.run depth env s = some (.error { cause }, t)) ∧
    s.Undisturbed t

theorem Code.EvaluatesEach.append_fault {before after : List Code} {code : Code} {env : Env}
    {s t u : Store Code} {vs : List Val} {fault : Fault}
    (hbefore : Code.EvaluatesEach before env s (.ok vs) t)
    (h : code.Evaluates env t (.error fault) u) :
    Code.EvaluatesEach (before ++ code :: after) env s (.error fault) u := by
  induction before generalizing s vs with
  | nil =>
      cases hbefore
      exact .headFault h
  | cons c cs ih =>
      cases hbefore with
      | cons hc hcs => exact .tailFault hc (ih hcs)

namespace Value

variable {f : Val} {vs : List Val} {s t : Store Code} {cause : Fault.Cause}

theorem Fails.of_undisturbed (h : f.Fails vs s cause) (hst : s.Undisturbed t) :
    f.Fails vs t cause :=
  fun u htu => h u (hst.trans htu)

theorem fails_of_apply_eq {p : Primitive}
    (h : ∀ t : Store Code, p.apply vs t = some (.error { cause }, t)) :
    (Value.primitive p).Fails vs s cause :=
  fun t _ => ⟨t, .primitive (h t), .refl t⟩

/-- A procedure fails with its body in a new frame. -/
theorem fails_procedure {id : Identity} {ps : List Symbol} {body : Code} {env : Env}
    (h : ∀ t, s.Undisturbed t →
      body.Fails (t.extend env ps vs).1 (t.extend env ps vs).2 cause) :
    (Value.procedure id ps body env).Fails vs s cause := by
  intro t hst
  rcases h t hst _ (.refl _) with ⟨u, hbody, htu⟩
  exact ⟨u, .procedure hbody, (Store.Undisturbed.extend t env ps vs).trans htu⟩

end Value

namespace Code

variable {code operator a b : Code} {before after : List Code} {env : Env}
  {s t : Store Code} {F P Q : Val → Prop} {cause : Fault.Cause}

theorem Fails.first {first : Code} (hfirst : code.first? = some first)
    (h : first.Fails env s cause) :
    code.Fails env s cause := by
  intro t hst
  rcases h t hst with ⟨u, hfault, htu⟩
  exact ⟨u, .firstFault hfirst hfault, htu⟩

theorem Fails.alternative {test consequent alternative : Code}
    (htest : test.Gives env s (· = .bool false)) (h : alternative.Fails env s cause) :
    (branch test consequent alternative).Fails env s cause := by
  intro t hst
  rcases htest t hst with ⟨_, m, hv, htm, rfl⟩
  rcases h m (hst.trans htm) with ⟨u, hfault, hmu⟩
  exact ⟨u, .alternative hv rfl hfault, htm.trans hmu⟩

/-- Operands are run from left to right, so the first that fails is the one that shows. -/
theorem Fails.operand {operand : Code} {Ps : List (Val → Prop)}
    (hoperator : operator.Gives env s F)
    (hbefore : List.Forall₂ (fun operand P => Gives operand env s P) before Ps)
    (h : operand.Fails env s cause) :
    (application operator (before ++ operand :: after)).Fails env s cause := by
  intro t hst
  rcases hoperator t hst with ⟨f, m, hf, htm, -⟩
  rcases givesEach hbefore m (hst.trans htm) with ⟨vs, n, hvs, hmn, -⟩
  have htn := htm.trans hmn
  rcases h n (hst.trans htn) with ⟨u, hfault, hnu⟩
  exact ⟨u, .operandFault hf (hvs.append_fault hfault), htn.trans hnu⟩

theorem Fails.operand_one (hoperator : operator.Gives env s F) (ha : a.Fails env s cause) :
    (application operator (a :: after)).Fails env s cause :=
  Fails.operand hoperator .nil ha

theorem Fails.operand_two (hoperator : operator.Gives env s F) (ha : a.Gives env s P)
    (hb : b.Fails env s cause) :
    (application operator (a :: b :: after)).Fails env s cause :=
  Fails.operand hoperator (.cons ha .nil) hb

theorem Fails.application {operands : List Code} {Ps : List (Val → Prop)}
    (hoperator : operator.Gives env s F)
    (hoperands : List.Forall₂ (fun operand P => Gives operand env s P) operands Ps)
    (h : ∀ f vs, F f → List.Forall₂ (fun v P => P v) vs Ps → f.Fails vs s cause) :
    (Code.application operator operands).Fails env s cause := by
  intro t hst
  rcases hoperator t hst with ⟨f, m, hf, htm, hF⟩
  rcases givesEach hoperands m (hst.trans htm) with ⟨vs, n, hvs, hmn, hPs⟩
  have htn := htm.trans hmn
  rcases h f vs hF hPs n (hst.trans htn) with ⟨u, hfault, hnu⟩
  exact ⟨u, .application hf hvs hfault, htn.trans hnu⟩

theorem Fails.application_literals {f : Val} (hoperator : operator.Gives env s (· = f))
    {vs : List Val} (h : f.Fails vs s cause) :
    (Code.application operator (vs.map literal)).Fails env s cause := by
  have hliterals : List.Forall₂ (fun operand P => Gives operand env s P) (vs.map literal)
      (vs.map fun v w => w = v) := by
    rw [List.forall₂_map_left_iff, List.forall₂_map_right_iff, List.forall₂_same]
    exact fun v _ => gives_literal v
  apply Fails.application hoperator hliterals
  rintro _ ws rfl hws
  rw [List.forall₂_map_right_iff, List.forall₂_eq_eq_eq] at hws
  exact hws ▸ h

theorem fails_recursive {name : Symbol} {ps : List Symbol} {initial body rest : Code}
    (henv : env.Within s) (hinitial : initial.Gives env s Q)
    (h : ∀ t inner id, inner.Within t →
      t.lookup? inner name = some (.procedure id ps body inner) →
      (∀ x, x ≠ name → t.lookup? inner x = s.lookup? env x) → rest.Fails inner t cause) :
    (application (lambda [name] (andThen (assign name (lambda ps body)) rest))
      [initial]).Fails env s cause := by
  apply Fails.application (gives_lambda _ _) (.cons hinitial .nil)
  rintro _ _ ⟨id, rfl⟩ (_ | ⟨hv, _ | _⟩)
  rename_i v
  intro t hst
  rcases exists_recursive henv hst id name v ps body with
    ⟨n, inner, loop, htn, hinner, hloop, hkept, hrecursive⟩
  rcases h n inner loop hinner hloop hkept n (.refl n) with ⟨u, hfault, hnu⟩
  exact ⟨u, hrecursive hfault, htn.trans hnu⟩

/-- As code fails, so it reports. -/
theorem Fails.reports (h : code.Fails env s cause) : code.Reports env s cause := by
  rcases h s (.refl s) with ⟨t, hfault, hst⟩
  rcases hfault.exists_run with ⟨least, hrun⟩
  exact ⟨least, t, fun depth hdepth => run_mono hdepth code env s _ hrun, hst⟩

end Code
end MiniLisp
