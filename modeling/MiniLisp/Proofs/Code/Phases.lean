import MiniLisp.Proofs.Code.Parts
import MiniLisp.Proofs.Code.Rules
import MiniLisp.Proofs.Primitive.Outcome
import MiniLisp.Toplevel

/-!
# Which faults come when

Analysis reports malformed forms and empty bodies, and blames a form for each.  Running code reports
names without a binding, operators that cannot be applied and arguments of the wrong type, and
blames no form.

## Main statement

* `evaluate_faults_by_phase`: a fault of the first kind comes of analysis, before anything is done;
  a fault of the second kind is the only one that code can end with; and a malformed form is
  reported wherever in the expression it stands.
-/

namespace MiniLisp

namespace Fault

def OfShape (fault : Fault) : Prop :=
  fault.kind = .malformed ∨ fault.kind = .emptySequence

def OfRun (fault : Fault) : Prop :=
  fault.kind = .unbound ∨ fault.kind = .notCallable ∨ fault.kind = .wrongType

theorem OfRun.not_ofShape {fault : Fault} (h : fault.OfRun) : ¬ fault.OfShape := by
  unfold OfShape
  rcases h with h | h | h <;> rw [h] <;> decide

theorem ofShape_blame {fault : Fault} {form : String} :
    (fault.blame form).OfShape ↔ fault.OfShape := by
  simp only [OfShape, kind, cause_blame]

theorem isSome_form_blame (fault : Fault) (form : String) : (fault.blame form).form.isSome := by
  unfold blame
  split
  · assumption
  · rfl

end Fault

/-!
# Faults of analysis
-/

namespace Analysis

variable {α γ : Type}

theorem bind_eq_error {a : Analysis α} {f : α → Analysis γ} {n : Identity} {fault : Fault} :
    (a >>= f) n = .error fault ↔
      a n = .error fault ∨ ∃ x k, a n = .ok (x, k) ∧ f x k = .error fault := by
  change (a n >>= fun r => f r.1 r.2) = _ ↔ _
  cases a n with
  | error fault' => simp [bind, Except.bind]
  | ok result =>
      rcases result with ⟨x, k⟩
      simp [bind, Except.bind]

theorem pure_ne_error {x : α} {n : Identity} {fault : Fault} :
    (pure x : Analysis α) n ≠ .error fault := by
  intro h
  cases h

theorem fresh_ne_error {n : Identity} {fault : Fault} : fresh n ≠ .error fault := by
  intro h
  cases h

theorem blaming_eq_error {form : Val} {a : Analysis α} {n : Identity} {fault : Fault}
    (h : blaming form a n = .error fault) :
    ∃ inner, a n = .error inner ∧ fault = inner.blame form.shown := by
  unfold blaming at h
  cases ha : a n with
  | ok result =>
      rw [ha] at h
      cases h
  | error inner =>
      rw [ha] at h
      cases h
      exact ⟨inner, rfl, rfl⟩

def ReportsShapes (a : Analysis α) : Prop :=
  ∀ n fault, a n = .error fault → fault.OfShape

def BlamesForms (a : Analysis α) : Prop :=
  ∀ n fault, a n = .error fault → fault.OfShape ∧ fault.form.isSome

theorem BlamesForms.reportsShapes {a : Analysis α} (h : BlamesForms a) : ReportsShapes a :=
  fun n fault hfault => (h n fault hfault).1

theorem blamesForms_pure (x : α) : BlamesForms (pure x : Analysis α) :=
  fun _ _ h => absurd h pure_ne_error

theorem reportsShapes_pure (x : α) : ReportsShapes (pure x : Analysis α) :=
  (blamesForms_pure x).reportsShapes

theorem reportsShapes_fail {cause : Fault.Cause}
    (h : cause.kind = .malformed ∨ cause.kind = .emptySequence) :
    ReportsShapes (fail cause : Analysis α) := by
  intro n fault hfault
  cases hfault
  exact h

theorem forall_error_bind {P : Fault → Prop} {a : Analysis α} {f : α → Analysis γ}
    (ha : ∀ n fault, a n = .error fault → P fault)
    (hf : ∀ x n fault, f x n = .error fault → P fault) (n : Identity) (fault : Fault)
    (h : (a >>= f) n = .error fault) :
    P fault := by
  rcases bind_eq_error.mp h with h | ⟨x, k, _, h⟩
  · exact ha n fault h
  · exact hf x k fault h

theorem BlamesForms.bind {a : Analysis α} {f : α → Analysis γ}
    (ha : BlamesForms a) (hf : ∀ x, BlamesForms (f x)) :
    BlamesForms (a >>= f) :=
  forall_error_bind ha hf

theorem ReportsShapes.bind {a : Analysis α} {f : α → Analysis γ}
    (ha : ReportsShapes a) (hf : ∀ x, ReportsShapes (f x)) :
    ReportsShapes (a >>= f) :=
  forall_error_bind ha hf

theorem ReportsShapes.blaming {a : Analysis α} (h : ReportsShapes a) (form : Val) :
    BlamesForms (blaming form a) := by
  intro n fault hfault
  rcases blaming_eq_error hfault with ⟨inner, hinner, rfl⟩
  exact ⟨Fault.ofShape_blame.mpr (h n inner hinner), Fault.isSome_form_blame inner _⟩

end Analysis

open Analysis (BlamesForms ReportsShapes)

/-! Causes that derived forms report. -/

namespace Derived

variable {β : Type}

theorem kind_parameterNames {parameters : List (Value β)} {cause : Fault.Cause}
    (h : parameterNames parameters = .error cause) :
    cause.kind = .malformed := by
  induction parameters with
  | nil => cases h
  | cons p rest ih =>
      rw [parameterNames] at h
      cases hp : p.symbol? with
      | none =>
          rw [hp] at h
          cases h
          rfl
      | some name =>
          rw [hp] at h
          cases hrest : parameterNames rest with
          | ok names =>
              rw [hrest] at h
              cases h
          | error cause' =>
              rw [hrest] at h
              cases h
              exact ih hrest

theorem kind_bindingParts {bindings : List (Value β)} {cause : Fault.Cause}
    (h : bindingParts bindings = .error cause) :
    cause.kind = .malformed := by
  fun_induction bindingParts bindings with
  | case1 => cases h
  | case2 _ _ _ _ _ hrest ih =>
      cases h
      exact ih hrest
  | case3 => cases h
  | case4 =>
      cases h
      rfl

theorem kind_clause {id : Identity} {c : Value β} {cause : Fault.Cause}
    (h : clause id c = .error cause) :
    cause.kind = .malformed := by
  unfold clause at h
  split at h <;> cases h <;> rfl

theorem kind_conditional {id : Identity} {ending : Value β} {clauses : List (Value β)}
    {cause : Fault.Cause}
    (h : conditional id ending clauses = .error cause) :
    cause.kind = .malformed := by
  induction clauses with
  | nil => cases h
  | cons c rest ih =>
      rw [conditional] at h
      cases hrest : conditional id ending rest with
      | error cause' =>
          rw [hrest] at h
          cases h
          exact ih hrest
      | ok alternative =>
          rw [hrest] at h
          cases hclause : clause id c with
          | error cause' =>
              rw [hclause] at h
              cases h
              exact kind_clause hclause
          | ok parts =>
              rw [hclause] at h
              cases h

end Derived

theorem Keyword.Refuses.kind {β : Type} {keyword : Keyword} {items : List (Value β)}
    {cause : Fault.Cause} (h : keyword.Refuses items cause) :
    cause.kind = .malformed := by
  cases h with
  | parameters hnames => exact Derived.kind_parameterNames hnames
  | bindings hparts => exact Derived.kind_bindingParts hparts
  | _ => rfl

namespace Code

/-!
Forms and bodies report faults in shapes, and the form around them is blamed.
-/

section

variable {id scope : Identity} {e head test consequent value : Val} {body rest : List Val}
  {keyword : Keyword} {name : Symbol}

theorem blamesForms_symbol (name : Symbol) : BlamesForms (analyze (.symbol name)) := by
  rw [analyze_symbol]
  exact Analysis.blamesForms_pure _

theorem blamesForms_constant (h : e.isConstant = true) : BlamesForms (analyze e) := by
  rw [analyze_constant h]
  exact Analysis.blamesForms_pure _

theorem blamesForms_application (hhead : Keyword.ofHead? head = none)
    (hoperator : BlamesForms (analyze head)) (hoperands : BlamesForms (analyzeEach rest)) :
    BlamesForms (analyze (.list id (head :: rest))) := by
  rw [analyze_application hhead]
  exact hoperator.bind fun _ => hoperands.bind fun _ => Analysis.blamesForms_pure _

theorem blamesForms_form (hhead : Keyword.ofHead? head = some keyword)
    (hform : ReportsShapes (analyzeForm keyword id rest)) :
    BlamesForms (analyze (.list id (head :: rest))) := by
  rw [analyze_form hhead]
  exact hform.blaming _

theorem blamesForms_nil : BlamesForms (analyzeEach []) := by
  rw [analyzeEach]
  exact Analysis.blamesForms_pure _

theorem blamesForms_cons (he : BlamesForms (analyze e)) (hrest : BlamesForms (analyzeEach rest)) :
    BlamesForms (analyzeEach (e :: rest)) := by
  rw [analyzeEach]
  exact he.bind fun _ => hrest.bind fun _ => Analysis.blamesForms_pure _

theorem reportsShapes_nil : ReportsShapes (analyzeBody []) := by
  rw [analyzeBody]
  exact Analysis.reportsShapes_fail (Or.inr rfl)

theorem reportsShapes_last (he : BlamesForms (analyze e)) : ReportsShapes (analyzeBody [e]) := by
  rw [analyzeBody]
  exact he.reportsShapes

theorem reportsShapes_cons {second : Val} (he : BlamesForms (analyze e))
    (hrest : ReportsShapes (analyzeBody (second :: rest))) :
    ReportsShapes (analyzeBody (e :: second :: rest)) := by
  rw [analyzeBody_cons]
  exact he.reportsShapes.bind fun _ => hrest.bind fun _ => Analysis.reportsShapes_pure _

theorem reportsShapes_quote (datum : Val) : ReportsShapes (analyzeForm .quote id [datum]) := by
  rw [analyzeForm]
  exact Analysis.reportsShapes_pure _

theorem reportsShapes_branchOnly (htest : BlamesForms (analyze test))
    (hconsequent : BlamesForms (analyze consequent)) :
    ReportsShapes (analyzeForm .branch id [test, consequent]) := by
  rw [analyzeForm]
  exact (htest.bind fun _ => hconsequent.bind fun _ => Analysis.blamesForms_pure _).reportsShapes

theorem reportsShapes_branch {alternative : Val} (htest : BlamesForms (analyze test))
    (hconsequent : BlamesForms (analyze consequent))
    (halternative : BlamesForms (analyze alternative)) :
    ReportsShapes (analyzeForm .branch id [test, consequent, alternative]) := by
  rw [analyzeForm]
  exact (htest.bind fun _ => hconsequent.bind fun _ => halternative.bind fun _ =>
    Analysis.blamesForms_pure _).reportsShapes

theorem reportsShapes_sequence (hbody : ReportsShapes (analyzeBody body)) :
    ReportsShapes (analyzeForm .sequence id body) := by
  rw [analyzeForm]
  exact hbody

theorem reportsShapes_define (hvalue : BlamesForms (analyze value)) :
    ReportsShapes (analyzeForm .define id [.symbol name, value]) := by
  rw [analyzeForm]
  exact (hvalue.bind fun _ => Analysis.blamesForms_pure _).reportsShapes

theorem reportsShapes_procedure {target : Val} {parameters : List Val}
    (h : BlamesForms (analyze (Derived.procedureDefinition id scope target parameters body))) :
    ReportsShapes (analyzeForm .define id (.list scope (target :: parameters) :: body)) := by
  rw [analyzeForm]
  exact h.reportsShapes

theorem reportsShapes_assign (hvalue : BlamesForms (analyze value)) :
    ReportsShapes (analyzeForm .assign id [.symbol name, value]) := by
  rw [analyzeForm]
  exact (hvalue.bind fun _ => Analysis.blamesForms_pure _).reportsShapes

theorem reportsShapes_lambda {parameters : List Val} {names : List Symbol}
    (hnames : Derived.parameterNames parameters = .ok names)
    (hbody : ReportsShapes (analyzeBody body)) :
    ReportsShapes (analyzeForm .lambda id (.list scope parameters :: body)) := by
  rw [analyzeForm_lambda hnames]
  exact hbody.bind fun _ => Analysis.reportsShapes_pure _

theorem reportsShapes_cond {clauses : List Val}
    (hexpansion : ∀ ending e, Derived.conditional id (.list ending []) clauses = .ok e →
      BlamesForms (analyze e)) :
    ReportsShapes (analyzeForm .cond id clauses) := by
  rw [analyzeForm_cond]
  apply Analysis.forall_error_bind
  · exact fun n fault h => absurd h Analysis.fresh_ne_error
  · intro ending
    cases he : Derived.conditional id (.list ending []) clauses with
    | error cause => exact Analysis.reportsShapes_fail (Or.inl (Derived.kind_conditional he))
    | ok e => exact (hexpansion ending e he).reportsShapes

theorem reportsShapes_letForm {bindings values : List Val} {names : List Symbol}
    (hparts : Derived.bindingParts bindings = .ok (names, values))
    (hscope : BlamesForms (analyze (Derived.localScope id names values body))) :
    ReportsShapes (analyzeForm .letForm id (.list scope bindings :: body)) := by
  rw [analyzeForm_letForm, hparts]
  exact hscope.reportsShapes

theorem reportsShapes_of_refuses {items : List Val} {cause : Fault.Cause}
    (h : keyword.Refuses items cause) :
    ReportsShapes (analyzeForm keyword id items) := by
  rw [analyzeForm_of_refuses h]
  exact Analysis.reportsShapes_fail (Or.inl h.kind)

end

theorem analysis_faults :
    AnalysisInduction (fun e => BlamesForms (analyze e)) (fun es => BlamesForms (analyzeEach es))
      (fun keyword id items => ReportsShapes (analyzeForm keyword id items))
      (fun body => ReportsShapes (analyzeBody body)) where
  symbol := blamesForms_symbol
  constant := blamesForms_constant
  application := blamesForms_application
  form := blamesForms_form
  none := blamesForms_nil
  each := blamesForms_cons
  quote := reportsShapes_quote
  branchOnly := reportsShapes_branchOnly
  branch := reportsShapes_branch
  sequence := reportsShapes_sequence
  define := reportsShapes_define
  procedure := reportsShapes_procedure
  assign := reportsShapes_assign
  lambda := reportsShapes_lambda
  cond := reportsShapes_cond
  letForm := reportsShapes_letForm
  refused := reportsShapes_of_refuses
  empty := reportsShapes_nil
  last := reportsShapes_last
  body := reportsShapes_cons

/-!
# Faults of running code
-/

/-- A result that is no fault, or one in what running code meets, with no form to blame. -/
def FaultsOfRun {α : Type} (r : Except Fault α) : Prop :=
  ∀ fault, r = .error fault → fault.OfRun ∧ fault.form = none

theorem faultsOfRun_ok {α : Type} (x : α) : FaultsOfRun (.ok x) :=
  nofun

theorem faultsOfRun_unbound {α : Type} (name : Symbol) :
    FaultsOfRun (.error { cause := .unbound name } : Except Fault α) := by
  intro fault h
  cases h
  exact ⟨Or.inl rfl, rfl⟩

theorem FaultsOfRun.error {α γ : Type} {fault : Fault}
    (h : FaultsOfRun (.error fault : Except Fault α)) :
    FaultsOfRun (.error fault : Except Fault γ) := by
  intro fault' hfault
  cases hfault
  exact h fault rfl

end Code

open Code (FaultsOfRun faultsOfRun_ok faultsOfRun_unbound)

mutual

theorem Code.Evaluates.faultsOfRun {code : Code} {env : Env} {s t : Store Code}
    {r : Except Fault Val}
    (h : code.Evaluates env s r t) :
    FaultsOfRun r := by
  match h with
  | .literal => exact faultsOfRun_ok _
  | .reference _ => exact faultsOfRun_ok _
  | .unbound _ => exact faultsOfRun_unbound _
  | .consequent _ _ hconsequent => exact hconsequent.faultsOfRun
  | .alternative _ _ halternative => exact halternative.faultsOfRun
  | .andThen _ hsecond => exact hsecond.faultsOfRun
  | .application _ _ happlies => exact happlies.faultsOfRun
  | .operandFault _ hoperands => exact hoperands.faultsOfRun.error
  | .define _ => exact faultsOfRun_ok _
  | .assign _ _ => exact faultsOfRun_ok _
  | .assignUnbound _ _ => exact faultsOfRun_unbound _
  | .lambda => exact faultsOfRun_ok _
  | .firstFault _ hfirst => exact hfirst.faultsOfRun

theorem Code.EvaluatesEach.faultsOfRun {codes : List Code} {env : Env} {s t : Store Code}
    {r : Except Fault (List Val)}
    (h : Code.EvaluatesEach codes env s r t) :
    FaultsOfRun r := by
  match h with
  | .nil => exact faultsOfRun_ok _
  | .cons _ _ => exact faultsOfRun_ok _
  | .headFault hc => exact hc.faultsOfRun.error
  | .tailFault _ hcs => exact hcs.faultsOfRun

theorem Value.Applies.faultsOfRun {f : Val} {vs : List Val} {s t : Store Code}
    {r : Except Fault Val}
    (h : f.Applies vs s r t) :
    FaultsOfRun r := by
  match h with
  | .primitive hp =>
      intro fault hfault
      subst hfault
      cases Primitive.outcome_of_apply hp with
      | wrongType => exact ⟨Or.inr (Or.inr rfl), rfl⟩
  | .procedure hbody => exact hbody.faultsOfRun
  | .notCallable _ _ =>
      intro fault hfault
      cases hfault
      exact ⟨Or.inr (Or.inl rfl), rfl⟩

end

/-!
# Evaluation as a whole
-/

theorem Run.analyze_of_ok {e : Val} {s : Store Code} {code : Code} {m : Identity}
    (h : Code.analyze e s.nextIdentity = .ok (code, m)) :
    Run.analyze e s = some (.ok code, { s with nextIdentity := m }) := by
  simp only [Run.analyze, ExceptT.mk, h]

theorem Run.analyze_of_error {e : Val} {s : Store Code} {fault : Fault}
    (h : Code.analyze e s.nextIdentity = .error fault) :
    Run.analyze e s = some (.error fault, s) := by
  simp only [Run.analyze, ExceptT.mk, h]

theorem evaluate_of_analyze_error {e : Val} {s : Store Code} {fault : Fault}
    (h : Code.analyze e s.nextIdentity = .error fault) (depth : Nat) (env : Env) :
    evaluate depth e env s = some (.error fault, s) :=
  Run.bind_of_error (Run.analyze_of_error h)

theorem Run.analyze_cases {e : Val} {s t : Store Code} {r : Except Fault Code}
    (h : Run.analyze e s = some (r, t)) :
    (∃ fault, Code.analyze e s.nextIdentity = .error fault ∧ r = .error fault ∧ t = s) ∨
      ∃ code m, Code.analyze e s.nextIdentity = .ok (code, m) ∧ r = .ok code ∧
        t = { s with nextIdentity := m } := by
  cases hanalyze : Code.analyze e s.nextIdentity with
  | error fault =>
      rw [Run.analyze_of_error hanalyze] at h
      cases h
      exact Or.inl ⟨fault, rfl, rfl, rfl⟩
  | ok result =>
      rw [Run.analyze_of_ok hanalyze] at h
      cases h
      exact Or.inr ⟨_, _, rfl, rfl, rfl⟩

theorem evaluate_cases {depth : Nat} {e : Val} {env : Env} {s t : Store Code}
    {r : Except Fault Val}
    (h : evaluate depth e env s = some (r, t)) :
    (∃ fault, Code.analyze e s.nextIdentity = .error fault ∧ r = .error fault ∧ t = s) ∨
      ∃ code m, Code.analyze e s.nextIdentity = .ok (code, m) ∧
        code.Evaluates env { s with nextIdentity := m } r t := by
  rcases Run.bind_eq_some h with ⟨code, u, hanalyze, hrun⟩ | ⟨fault, hanalyze, rfl⟩
  · rcases Run.analyze_cases hanalyze with ⟨_, _, hok, _⟩ | ⟨code', m, hcode, hok, rfl⟩
    · cases hok
    · cases hok
      exact Or.inr ⟨code, m, hcode, Code.evaluates_of_run hrun⟩
  · rcases Run.analyze_cases hanalyze with ⟨_, hfault, herror, rfl⟩ | ⟨_, _, _, herror, _⟩
    · cases herror
      exact Or.inl ⟨fault, hfault, rfl, rfl⟩
    · cases herror

theorem Code.analyze_of_not_fits {e : Val} {id : Identity} {head : Val} {rest : List Val}
    (hstands : (Value.list id (head :: rest)).StandsIn e)
    {keyword : Keyword} (hhead : Keyword.ofHead? head = some keyword)
    (hshape : ¬ keyword.Fits rest) (n : Identity) :
    ∃ fault, Code.analyze e n = .error fault := by
  cases h : Code.analyze e n with
  | error fault => exact ⟨fault, rfl⟩
  | ok result =>
      rcases result with ⟨code, m⟩
      have haccepts : Code.Accepts e := ⟨n, code, m, Code.analyze_eq_ok_iff.mp h⟩
      exact absurd (haccepts.fits hstands hhead) hshape

/-- Whatever an expression is evaluated in: a fault in the shape of a form is one that analysis
reports, with a form to blame and before anything is done.  If analysis reports none, then code that
it makes never ends with such a fault in any environment, but only with faults in what it meets, and
those blame no form.  A form of the wrong shape is reported wherever it stands in the expression, be
it ever run or not. -/
theorem evaluate_faults_by_phase (e : Val) :
    (∀ depth env s fault t,
      evaluate depth e env s = some (.error fault, t) → fault.OfShape →
        Code.analyze e s.nextIdentity = .error fault ∧ fault.form.isSome ∧ t = s) ∧
    (∀ n code m, Code.analyze e n = .ok (code, m) →
      ∀ depth env s fault t, code.run depth env s = some (.error fault, t) →
        fault.OfRun ∧ ¬ fault.OfShape ∧ fault.form = none) ∧
    (∀ id head rest keyword, (Value.list id (head :: rest)).StandsIn e →
      Keyword.ofHead? head = some keyword → ¬ keyword.Fits rest →
        ∀ depth env s, ∃ fault, evaluate depth e env s = some (.error fault, s) ∧
          fault.OfShape ∧ fault.form.isSome) := by
  refine ⟨?_, ?_, ?_⟩
  · intro depth env s fault t h hshape
    rcases evaluate_cases h with ⟨fault', hanalyze, hfault, rfl⟩ | ⟨code, m, _, hevaluates⟩
    · cases hfault
      exact ⟨hanalyze, (Code.analysis_faults.all.1 e _ _ hanalyze).2, rfl⟩
    · exact absurd hshape (hevaluates.faultsOfRun fault rfl).1.not_ofShape
  · intro n code m _ depth env s fault t h
    rcases (Code.evaluates_of_run h).faultsOfRun fault rfl with ⟨hrun, hform⟩
    exact ⟨hrun, hrun.not_ofShape, hform⟩
  · intro id head rest keyword hstands hhead hshape depth env s
    rcases Code.analyze_of_not_fits hstands hhead hshape s.nextIdentity with ⟨fault, hanalyze⟩
    exact ⟨fault, evaluate_of_analyze_error hanalyze depth env,
      Code.analysis_faults.all.1 e _ _ hanalyze⟩

def untakenForm : Val :=
  .list 0 [.symbol ⟨"begin"⟩, .list 1 [.symbol ⟨"define"⟩, .symbol ⟨"x"⟩, .bool true],
    .list 2 [.symbol ⟨"if"⟩, .symbol ⟨"x"⟩, .symbol ⟨"x"⟩,
      .list 3 [.symbol ⟨"let"⟩, .symbol ⟨"x"⟩]]]

def callForm : Val :=
  .list 0 [.list 1 [.symbol ⟨"lambda"⟩, .list 2 [], .symbol ⟨"x"⟩]]

theorem evaluate_faults_by_phase_untaken :
    (∃ fault, evaluate 9 untakenForm ⟨0, []⟩ { frames := #[{}] } =
        some (.error fault, { frames := #[{}] }) ∧
      fault.OfShape ∧ fault.form.isSome ∧ Code.analyze untakenForm 0 = .error fault) ∧
    ∃ code, Code.analyze callForm 0 = .ok (code, 0) ∧
      ∃ fault t, code.run 3 ⟨0, []⟩ { frames := #[{}] } = some (.error fault, t) ∧
        fault.OfRun ∧ ¬ fault.OfShape ∧ fault.form = none := by
  constructor
  · rcases evaluate_faults_by_phase untakenForm with ⟨hanalysis, _, hmalformed⟩
    have hstands : (Value.list 3 [.symbol ⟨"let"⟩, .symbol ⟨"x"⟩]).StandsIn untakenForm :=
      .here (.tail _ (.head _)) (.here (.tail _ (.tail _ (.head _))) .self)
    have hshape : ¬ Keyword.Fits .letForm [(.symbol ⟨"x"⟩ : Val)] := nofun
    rcases hmalformed 3 _ _ .letForm hstands rfl hshape 9 ⟨0, []⟩ { frames := #[{}] } with
      ⟨fault, hevaluate, hfault, _⟩
    rcases hanalysis _ _ _ _ _ hevaluate hfault with ⟨hanalyze, hform, _⟩
    exact ⟨fault, hevaluate, hfault, hform, hanalyze⟩
  · have hanalyze : Code.analyze callForm 0 =
        .ok (.application (.lambda [] (.reference ⟨"x"⟩)) [], 0) :=
      Code.analyze_eq_ok_iff.mpr (.application rfl
        (.form rfl (.lambda rfl (.last .reference))) .nil)
    refine ⟨_, hanalyze, _, _, rfl, ?_⟩
    exact (evaluate_faults_by_phase callForm).2.1 _ _ _ hanalyze 3 ⟨0, []⟩ { frames := #[{}] } _ _
      rfl

end MiniLisp
