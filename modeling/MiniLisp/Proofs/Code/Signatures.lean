import MiniLisp.Proofs.Code.Phases

/-!
# Signatures

A definition with a signature in the place of the name defines a procedure, and the name in a
signature may be a signature again.  However deep they nest, the definition is that of the innermost
name with one `lambda` for each parameter list, the innermost list outermost and the body in the
last `lambda`.

## Main statement

* `define_signature_eq_lambdas`: the two definitions become the same code or are reported with the
  same fault.
-/

namespace MiniLisp

open Derived (form)

/-!
# Expressions that differ in identities only
-/

namespace Analysis

variable {α : Type} {a : Analysis α}

theorem blaming_of_error {n : Identity} {fault : Fault} (h : a n = .error fault) (e : Val) :
    blaming e a n = .error (fault.blame e.shown) := by
  simp only [blaming, h]

theorem blaming_eq_self (h : BlamesForms a) (e : Val) : blaming e a = a := by
  funext n
  unfold blaming
  cases ha : a n with
  | ok result => rfl
  | error fault =>
      simp only [Fault.blame_of_isSome (h n fault ha).2]

end Analysis

namespace Code

theorem analyze_procedure (id signature : Identity) (target : Val) (parameters body : List Val) :
    analyze (form id .define (.list signature (target :: parameters) :: body)) =
      analyze (Derived.procedureDefinition id signature target parameters body) := by
  unfold form
  rw [analyze_form (Derived.ofHead?_symbol .define), analyzeForm]
  exact Analysis.blaming_eq_self (analysis_faults.all.1 _) _

end Code

/-- Two expressions that analysis makes the same of, and that read the same in a report. -/
structure Value.Twins (e e' : Val) : Prop where
  analyze : Code.analyze e = Code.analyze e'
  text : e.text = e'.text

namespace Value.Twins

theorem refl (e : Val) : Twins e e :=
  ⟨rfl, rfl⟩

theorem forall₂_refl (es : List Val) : List.Forall₂ Twins es es :=
  List.forall₂_same.mpr fun e _ => refl e

theorem texts_eq {es es' : List Val} (h : List.Forall₂ Twins es es') :
    Value.texts es = Value.texts es' := by
  induction h with
  | nil => rfl
  | cons he _ ih =>
      change Value.text _ :: Value.texts _ = Value.text _ :: Value.texts _
      rw [he.text, ih]

theorem analyzeBody_eq {es es' : List Val} (h : List.Forall₂ Twins es es') :
    Code.analyzeBody es = Code.analyzeBody es' := by
  induction h with
  | nil => rfl
  | cons he hes ih =>
      cases hes with
      | nil => rw [Code.analyzeBody, Code.analyzeBody, he.analyze]
      | cons => rw [Code.analyzeBody_cons, Code.analyzeBody_cons, he.analyze, ih]

theorem text_form (keyword : Keyword) (id id' : Identity) {items items' : List Val}
    (h : Value.texts items = Value.texts items') :
    (form id keyword items).text = (form id' keyword items').text := by
  change Datum.listText (_ :: Value.texts items) = Datum.listText (_ :: Value.texts items')
  rw [h]

theorem of_form {keyword : Keyword} {id id' : Identity} {items items' : List Val}
    (htexts : Value.texts items = Value.texts items')
    (hanalyze : Code.analyzeForm keyword id items = Code.analyzeForm keyword id' items') :
    Twins (form id keyword items) (form id' keyword items') := by
  have htext := text_form keyword id id' htexts
  refine ⟨?_, htext⟩
  unfold form at htext ⊢
  rw [Code.analyze_form (Derived.ofHead?_symbol keyword), Code.analyze_form
    (Derived.ofHead?_symbol keyword), hanalyze]
  unfold Analysis.blaming Value.shown
  rw [htext]

theorem lambda {body body' : List Val} (h : List.Forall₂ Twins body body')
    (id id' scope scope' : Identity) (parameters : List Val) :
    Twins (form id .lambda (.list scope parameters :: body))
      (form id' .lambda (.list scope' parameters :: body')) := by
  apply of_form
  · change Datum.listText _ :: Value.texts body = Datum.listText _ :: Value.texts body'
    rw [texts_eq h]
  · rw [Code.analyzeForm, Code.analyzeForm, analyzeBody_eq h]

theorem define {body body' : List Val} (h : List.Forall₂ Twins body body') (id id' : Identity)
    (name : Val) :
    Twins (form id .define (name :: body)) (form id' .define (name :: body')) := by
  have htexts : Value.texts (name :: body) = Value.texts (name :: body') :=
    congrArg (Value.text name :: ·) (texts_eq h)
  match name with
  | .list signature (target :: parameters) =>
      have hlambda := lambda h id id' signature signature parameters
      refine ⟨?_, text_form _ _ _ htexts⟩
      rw [Code.analyze_procedure, Code.analyze_procedure]
      exact (define (.cons hlambda .nil) id id' target).analyze
  | .list _ [] =>
      apply of_form htexts
      rw [Code.analyzeForm, Code.analyzeForm]
  | .atom (.symbol name) =>
      apply of_form htexts
      cases h with
      | nil => rw [Code.analyzeForm, Code.analyzeForm] <;> simp
      | cons he hes =>
          cases hes with
          | nil => rw [Code.analyzeForm, Code.analyzeForm, he.analyze]
          | cons => rw [Code.analyzeForm, Code.analyzeForm] <;> simp
  | .atom (.bool _) | .atom (.number _) | .atom (.string _) | .primitive _ | .procedure ..
  | .undefined =>
      apply of_form htexts
      rw [Code.analyzeForm, Code.analyzeForm] <;> simp

end Value.Twins

/-!
# Signatures in signatures
-/

namespace Derived

/-- One parameter list of a signature, and the identities of the lists around it: of the signature,
and of the `lambda` form and its parameter list. -/
structure Level where
  parameters : List Val
  signature : Identity
  form : Identity
  scope : Identity

/-- What stands in the place of the name, the first level being the innermost. -/
def signature (name : Val) : List Level → Val
  | [] => name
  | l :: ls => signature (.list l.signature (name :: l.parameters)) ls

def lambdas (body : List Val) : List Level → List Val
  | [] => body
  | l :: ls => [form l.form .lambda (.list l.scope l.parameters :: lambdas body ls)]

end Derived

open Derived (Level signature lambdas)

namespace Code

theorem analyze_signature (levels : List Level) (name : Val) (body : List Val)
    (id id' : Identity) :
    analyze (form id .define (signature name levels :: body)) =
      analyze (form id' .define (name :: lambdas body levels)) := by
  -- By induction on the levels, the innermost one first, so that the signature of the levels seen
  -- so far is the name.
  induction levels generalizing name with
  | nil => exact (Value.Twins.define (Value.Twins.forall₂_refl body) id id' name).analyze
  | cons l ls ih =>
      have hlambda := Value.Twins.lambda (Value.Twins.forall₂_refl (lambdas body ls)) id' l.form
        l.signature l.scope l.parameters
      calc analyze (form id .define (signature name (l :: ls) :: body))
        _ = analyze (form id' .define
              (.list l.signature (name :: l.parameters) :: lambdas body ls)) := ih _
        _ = analyze (form id' .define
              [name, form id' .lambda (.list l.signature l.parameters :: lambdas body ls)]) :=
            analyze_procedure ..
        _ = analyze (form id' .define (name :: lambdas body (l :: ls))) :=
            (Value.Twins.define (.cons hlambda .nil) id' id' name).analyze

/-!
# What becomes of the body
-/

variable {levels : List Level} {names : List (List Symbol)} {body : List Val}
  {n m : Identity} {code : Code} {fault : Fault}

theorem analyzeBody_lambdas_of_ok
    (hnames : levels.map Level.parameters = names.map fun xs => xs.map .symbol)
    (h : analyzeBody body n = .ok (code, m)) :
    analyzeBody (lambdas body levels) n = .ok (names.foldr .lambda code, m) := by
  induction levels generalizing names with
  | nil =>
      cases List.map_eq_nil_iff.mp hnames.symm
      exact h
  | cons l ls ih =>
      cases names with
      | nil => cases hnames
      | cons xs names =>
          rw [List.map_cons, List.map_cons] at hnames
          injection hnames with hl hls
          rw [lambdas, analyzeBody]
          exact analyze_lambda (by rw [hl, parameterNames_symbols]) (ih hls)

theorem analyzeBody_lambdas_of_error
    (hnames : levels.map Level.parameters = names.map fun xs => xs.map .symbol)
    (h : analyzeBody body n = .error fault) :
    ∃ fault', analyzeBody (lambdas body levels) n = .error fault' ∧
      fault'.cause = fault.cause := by
  induction levels generalizing names with
  | nil => exact ⟨fault, h, rfl⟩
  | cons l ls ih =>
      cases names with
      | nil => cases hnames
      | cons xs names =>
          rw [List.map_cons, List.map_cons] at hnames
          injection hnames with hl hls
          rcases ih hls with ⟨fault', hbody, hcause⟩
          have hform : analyzeForm .lambda l.form
              (.list l.scope l.parameters :: lambdas body ls) n = .error fault' := by
            rw [analyzeForm, hl, parameterNames_symbols]
            exact Analysis.bind_eq_error.mpr (Or.inl hbody)
          rw [lambdas, analyzeBody, Derived.form, analyze_form (Derived.ofHead?_symbol .lambda)]
          exact ⟨_, Analysis.blaming_of_error hform _, (Fault.cause_blame fault' _).trans hcause⟩

theorem analyze_define_of_ok (hlevels : levels ≠ [])
    (hnames : levels.map Level.parameters = names.map fun xs => xs.map .symbol)
    (h : analyzeBody body n = .ok (code, m)) (id : Identity) (f : Symbol) :
    analyze (form id .define (.symbol f :: lambdas body levels)) n =
      .ok (.define f (names.foldr .lambda code), m) := by
  have hbody := analyzeBody_lambdas_of_ok hnames h
  cases levels with
  | nil => exact absurd rfl hlevels
  | cons l ls =>
      rw [lambdas, analyzeBody] at hbody
      rw [lambdas, analyze_derivedForm, analyzeForm]
      exact Analysis.bind_eq_ok.mpr ⟨_, m, hbody, rfl⟩

theorem analyze_define_of_error (hlevels : levels ≠ [])
    (hnames : levels.map Level.parameters = names.map fun xs => xs.map .symbol)
    (h : analyzeBody body n = .error fault) (id : Identity) (f : Symbol) :
    ∃ fault', analyze (form id .define (.symbol f :: lambdas body levels)) n = .error fault' ∧
      fault'.cause = fault.cause := by
  rcases analyzeBody_lambdas_of_error hnames h with ⟨inner, hbody, hcause⟩
  cases levels with
  | nil => exact absurd rfl hlevels
  | cons l ls =>
      rw [lambdas, analyzeBody] at hbody
      have hform : analyzeForm .define id (.symbol f :: lambdas body (l :: ls)) n =
          .error inner := by
        rw [lambdas, analyzeForm]
        exact Analysis.bind_eq_error.mpr (Or.inl hbody)
      rw [form, analyze_form (Derived.ofHead?_symbol .define)]
      exact ⟨_, Analysis.blaming_of_error hform _, (Fault.cause_blame inner _).trans hcause⟩

theorem analyze_define_of_not_name {name : Val} (hname : name.symbol? = none)
    (hpair : name.isPair = false) (id : Identity) (items : List Val) (n : Identity) :
    ∃ fault, analyze (form id .define (name :: items)) n = .error fault ∧
      fault.kind = .malformed := by
  have hform : ∃ cause, analyzeForm .define id (name :: items) n = .error { cause } ∧
      cause.kind = .malformed := by
    match name with
    | .list _ [] =>
        rw [analyzeForm]
        exact ⟨_, rfl, rfl⟩
    | .list _ (_ :: _) => cases hpair
    | .atom (.symbol _) => cases hname
    | .atom (.bool _) | .atom (.number _) | .atom (.string _) | .primitive _ | .procedure ..
    | .undefined =>
        rw [analyzeForm] <;> first | exact ⟨_, rfl, rfl⟩ | simp
  rcases hform with ⟨cause, hform, hkind⟩
  rw [form, analyze_form (Derived.ofHead?_symbol .define)]
  refine ⟨_, Analysis.blaming_of_error hform _, ?_⟩
  rw [Fault.kind, Fault.cause_blame, hkind]

end Code

theorem evaluate_congr {e e' : Val} (h : Code.analyze e = Code.analyze e') (depth : Nat)
    (env : Env) :
    evaluate depth e env = evaluate depth e' env := by
  simp only [evaluate, Run.analyze, h]

/-- A definition with a signature, to any depth of signatures in signatures, becomes what the
definition of the innermost name with nested `lambda` forms becomes, and is evaluated like it in any
environment.  If the innermost name is no name, it is malformed and binds nothing.  Otherwise the
body is that of the innermost `lambda`, and what is wrong with it is wrong with the definition. -/
theorem define_signature_eq_lambdas (levels : List Level) (name : Val) (body : List Val)
    (id id' : Identity) :
    let curried : Val := form id .define (signature name levels :: body)
    let nested : Val := form id' .define (name :: lambdas body levels)
    Code.analyze curried = Code.analyze nested ∧
    (∀ depth env, evaluate depth curried env = evaluate depth nested env) ∧
    (name.symbol? = none → name.isPair = false → ∀ depth env s, ∃ fault,
      evaluate depth curried env s = some (.error fault, s) ∧ fault.kind = .malformed) ∧
    ∀ f (names : List (List Symbol)), name = .symbol f → levels ≠ [] →
      levels.map Level.parameters = names.map (fun xs => xs.map .symbol) →
      (∀ n code m, Code.analyzeBody body n = .ok (code, m) →
        Code.analyze curried n = .ok (.define f (names.foldr .lambda code), m)) ∧
      (∀ s fault, Code.analyzeBody body s.nextIdentity = .error fault →
        ∀ depth env, ∃ fault', evaluate depth curried env s = some (.error fault', s) ∧
          fault'.cause = fault.cause) ∧
      (body = [] → ∀ depth env s, ∃ fault,
        evaluate depth curried env s = some (.error fault, s) ∧ fault.kind = .emptySequence) := by
  intro curried nested
  have hanalyze : Code.analyze curried = Code.analyze nested :=
    Code.analyze_signature levels name body id id'
  refine ⟨hanalyze, evaluate_congr hanalyze, fun hname hpair depth env s => ?_,
    fun f names hf hlevels hnames => ?_⟩
  · rcases Code.analyze_define_of_not_name hname hpair id' (lambdas body levels) s.nextIdentity
      with ⟨fault, hfault, hkind⟩
    exact ⟨fault, evaluate_of_analyze_error (by rw [hanalyze, hfault]) depth env, hkind⟩
  · subst hf
    have herror : ∀ s fault, Code.analyzeBody body s.nextIdentity = .error fault →
        ∀ depth env, ∃ fault', evaluate depth curried env s = some (.error fault', s) ∧
          fault'.cause = fault.cause := by
      intro s fault hbody depth env
      rcases Code.analyze_define_of_error hlevels hnames hbody id' f with ⟨fault', hfault, hcause⟩
      exact ⟨fault', evaluate_of_analyze_error (by rw [hanalyze, hfault]) depth env, hcause⟩
    refine ⟨fun n code m hbody => ?_, herror, fun hempty depth env s => ?_⟩
    · rw [hanalyze]
      exact Code.analyze_define_of_ok hlevels hnames hbody id' f
    · subst hempty
      rcases herror s { cause := .emptySequence } (by rw [Code.analyzeBody]; rfl) depth env
        with ⟨fault, hevaluate, hcause⟩
      exact ⟨fault, hevaluate, by rw [Fault.kind, hcause]; rfl⟩

def twoLevels : List Level :=
  [⟨[.symbol ⟨"x"⟩], 2, 5, 6⟩, ⟨[.symbol ⟨"y"⟩, .symbol ⟨"z"⟩], 1, 7, 8⟩]

theorem define_signature_eq_lambdas_two :
    (signature (.symbol ⟨"f"⟩) twoLevels : Val) =
      .list 1 [.list 2 [.symbol ⟨"f"⟩, .symbol ⟨"x"⟩], .symbol ⟨"y"⟩, .symbol ⟨"z"⟩] ∧
    Code.analyze (form 0 .define [signature (.symbol ⟨"f"⟩) twoLevels, .symbol ⟨"x"⟩]) 9 =
      .ok (.define ⟨"f"⟩ (.lambda [⟨"x"⟩] (.lambda [⟨"y"⟩, ⟨"z"⟩] (.reference ⟨"x"⟩))), 9) ∧
    (∃ fault, evaluate 3 (form 0 .define [signature (.symbol ⟨"f"⟩) twoLevels]) ⟨0, []⟩
        { frames := #[{}] } = some (.error fault, { frames := #[{}] }) ∧
      fault.kind = .emptySequence) ∧
    ∃ fault, evaluate 3 (form 0 .define [signature (.number 1) twoLevels, .symbol ⟨"x"⟩])
        ⟨0, []⟩ { frames := #[{}] } = some (.error fault, { frames := #[{}] }) ∧
      fault.kind = .malformed := by
  have hnames : twoLevels.map Level.parameters =
      [[⟨"x"⟩], [⟨"y"⟩, ⟨"z"⟩]].map fun xs => xs.map .symbol := rfl
  have hbody : Code.analyzeBody [.symbol ⟨"x"⟩] 9 = .ok (.reference ⟨"x"⟩, 9) := by
    rw [Code.analyzeBody, Code.analyze_symbol]
    rfl
  refine ⟨rfl, ?_, ?_, ?_⟩
  · rcases define_signature_eq_lambdas twoLevels (.symbol ⟨"f"⟩) [.symbol ⟨"x"⟩] 0 4
      with ⟨_, _, _, hlambdas⟩
    exact (hlambdas ⟨"f"⟩ _ rfl (List.cons_ne_nil _ _) hnames).1 9 _ 9 hbody
  · rcases define_signature_eq_lambdas twoLevels (.symbol ⟨"f"⟩) [] 0 4 with ⟨_, _, _, hlambdas⟩
    exact (hlambdas ⟨"f"⟩ _ rfl (List.cons_ne_nil _ _) hnames).2.2 rfl 3 _ _
  · rcases define_signature_eq_lambdas twoLevels (.number 1) [.symbol ⟨"x"⟩] 0 4
      with ⟨_, _, hmalformed, _⟩
    exact hmalformed rfl rfl 3 _ _

end MiniLisp
