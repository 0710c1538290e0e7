import Mathlib
import MiniLisp.Proofs.Code.Forms

/-!
# Translation rules

What analysis makes of an expression, by one rule for each form and without the expressions that
derived forms stand for.  Each rule says which identities it gives out: only a `cond` takes one, for
the empty list at its end.

## Main statement

* `Code.analyze_eq_ok_iff`: analysis makes code of an expression exactly when the rules do.
-/

namespace MiniLisp

/-- The name that a definition binds, and what it binds it to: a signature in the place of the name
makes a procedure, and a signature in the place of the name of a signature makes a procedure that
makes one.  `lambda` makes procedures. -/
def Value.defined? {β κ : Type} (lambda : List Symbol → κ → κ) : Value β → κ → Option (Symbol × κ)
  | .atom (.symbol name), inner => some (name, inner)
  | .list _ (target :: parameters), inner =>
      match Derived.parameterNames parameters with
      | .ok names => Value.defined? lambda target (lambda names inner)
      | .error _ => none
  | _, _ => none

namespace Code

mutual

/-- From the identity `n` on, an expression becomes code, and the next free identity is last. -/
inductive Translates : Identity → Val → Code → Identity → Prop where
  | constant {n e} :
      e.isConstant = true →
      Translates n e (.literal e) n
  | reference {n name} :
      Translates n (.symbol name) (.reference name) n
  | application {n k m id head rest operator operands} :
      Keyword.ofHead? head = none →
      Translates n head operator k →
      TranslatesEach k rest operands m →
      Translates n (.list id (head :: rest)) (.application operator operands) m
  | form {n m id head rest keyword code} :
      Keyword.ofHead? head = some keyword →
      TranslatesForm n keyword rest code m →
      Translates n (.list id (head :: rest)) code m

inductive TranslatesForm : Identity → Keyword → List Val → Code → Identity → Prop where
  | quote {n datum} :
      TranslatesForm n .quote [datum] (.literal datum) n
  | branchOnly {n k m test consequent t c} :
      Translates n test t k →
      Translates k consequent c m →
      TranslatesForm n .branch [test, consequent] (.branch t c (.literal .undefined)) m
  | branch {n k l m test consequent alternative t c a} :
      Translates n test t k →
      Translates k consequent c l →
      Translates l alternative a m →
      TranslatesForm n .branch [test, consequent, alternative] (.branch t c a) m
  | sequence {n m body code} :
      TranslatesBody n body code m →
      TranslatesForm n .sequence body code m
  | define {n m name value code} :
      Translates n value code m →
      TranslatesForm n .define [.symbol name, value] (.define name code) m
  | procedure {n m id target parameters body inner name code} :
      TranslatesBody n body inner m →
      Value.defined? Code.lambda (.list id (target :: parameters) : Val) inner =
        some (name, code) →
      TranslatesForm n .define (.list id (target :: parameters) :: body) (.define name code) m
  | assign {n m name value code} :
      Translates n value code m →
      TranslatesForm n .assign [.symbol name, value] (.assign name code) m
  | lambda {n m id parameters body names code} :
      Derived.parameterNames parameters = .ok names →
      TranslatesBody n body code m →
      TranslatesForm n .lambda (.list id parameters :: body) (.lambda names code) m
  | cond {n m clauses code} :
      TranslatesClauses n (n + 1) clauses code m →
      TranslatesForm n .cond clauses code m
  | letForm {n k m id bindings names values body code operands} :
      Derived.bindingParts bindings = .ok (names, values) →
      TranslatesBody n body code k →
      TranslatesEach k values operands m →
      TranslatesForm n .letForm (.list id bindings :: body)
        (.application (.lambda names code) operands) m

inductive TranslatesEach : Identity → List Val → List Code → Identity → Prop where
  | nil {n} :
      TranslatesEach n [] [] n
  | cons {n k m e es code codes} :
      Translates n e code k →
      TranslatesEach k es codes m →
      TranslatesEach n (e :: es) (code :: codes) m

inductive TranslatesBody : Identity → List Val → Code → Identity → Prop where
  | last {n m e code} :
      Translates n e code m →
      TranslatesBody n [e] code m
  | cons {n k m e es first second} :
      Translates n e first k →
      TranslatesBody k es second m →
      TranslatesBody n (e :: es) (.andThen first second) m

inductive TranslatesClauses : Identity → Identity → List Val → Code → Identity → Prop where
  | nil {ending n} :
      TranslatesClauses ending n [] (.literal (.list ending [])) n
  | cons {ending n k l m id test body clauses t c a} :
      Translates n (Derived.clauseTest test) t k →
      TranslatesBody k body c l →
      TranslatesClauses ending l clauses a m →
      TranslatesClauses ending n (.list id (test :: body) :: clauses) (.branch t c a) m

end

end Code

/-!
# Steps of analysis
-/

namespace Analysis

variable {α γ : Type}

theorem bind_eq_ok {a : Analysis α} {f : α → Analysis γ} {n m : Identity} {y : γ} :
    (a >>= f) n = .ok (y, m) ↔ ∃ x k, a n = .ok (x, k) ∧ f x k = .ok (y, m) := by
  change (a n >>= fun r => f r.1 r.2) = _ ↔ _
  cases a n with
  | error fault => simp [bind, Except.bind]
  | ok result =>
      rcases result with ⟨x, k⟩
      simp [bind, Except.bind]

theorem pure_eq_ok {x y : α} {n m : Identity} :
    (pure x : Analysis α) n = .ok (y, m) ↔ x = y ∧ n = m := by
  change Except.ok (x, n) = Except.ok (y, m) ↔ _
  simp

theorem bind_pure_eq_ok {a : Analysis α} {f : α → γ} {n m : Identity} {y : γ} :
    (a >>= fun x => pure (f x)) n = .ok (y, m) ↔ ∃ x, a n = .ok (x, m) ∧ f x = y := by
  rw [bind_eq_ok]
  constructor
  · rintro ⟨x, k, hx, hy⟩
    rcases pure_eq_ok.mp hy with ⟨heq, rfl⟩
    exact ⟨x, hx, heq⟩
  · rintro ⟨x, hx, rfl⟩
    exact ⟨x, m, hx, rfl⟩

theorem fail_ne_ok {cause : Fault.Cause} {n m : Identity} {x : α} :
    fail cause n ≠ .ok (x, m) := by
  intro h
  cases h

theorem blaming_eq_ok {form : Val} {a : Analysis α} {n m : Identity} {x : α} :
    blaming form a n = .ok (x, m) ↔ a n = .ok (x, m) := by
  unfold blaming
  cases a n <;> simp

end Analysis

namespace Code

open Analysis (bind_eq_ok pure_eq_ok bind_pure_eq_ok fail_ne_ok blaming_eq_ok)

theorem parameterNames_symbols (names : List Symbol) :
    Derived.parameterNames (names.map Value.symbol : List Val) = .ok names := by
  induction names with
  | nil => rfl
  | cons name rest ih =>
      simp only [List.map_cons, Derived.parameterNames, Value.symbol?, ih]
      rfl

/-!
# From the rules to analysis

By recursion on how the rules apply.  A derived form is analyzed through the expression it stands
for.
-/

theorem analyze_derivedForm {keyword : Keyword} {id : Identity} {items : List Val}
    {n m : Identity} {code : Code} :
    analyze (Derived.form id keyword items) n = .ok (code, m) ↔
      analyzeForm keyword id items n = .ok (code, m) := by
  unfold Derived.form
  rw [analyze_form (Derived.ofHead?_symbol keyword), blaming_eq_ok]

theorem analyze_lambda {id scope : Identity} {parameters : List Val} {names : List Symbol}
    (hnames : Derived.parameterNames parameters = .ok names)
    {body : List Val} {n m : Identity} {code : Code}
    (hbody : analyzeBody body n = .ok (code, m)) :
    analyze (Derived.form id .lambda (.list scope parameters :: body)) n =
      .ok (.lambda names code, m) := by
  rw [analyze_derivedForm, analyzeForm_lambda hnames]
  exact bind_pure_eq_ok.mpr ⟨code, hbody, rfl⟩

theorem analyze_procedureDefinition {n m : Identity} (target : Val) (id scope : Identity)
    {parameters body : List Val} {inner code : Code} {name : Symbol}
    (hbody : analyzeBody body n = .ok (inner, m))
    (hdefined : Value.defined? Code.lambda (.list scope (target :: parameters) : Val) inner =
      some (name, code)) :
    analyze (Derived.procedureDefinition id scope target parameters body) n =
      .ok (.define name code, m) := by
  rw [Value.defined?] at hdefined
  cases hnames : Derived.parameterNames parameters with
  | error cause =>
      rw [hnames] at hdefined
      cases hdefined
  | ok names =>
      rw [hnames] at hdefined
      change Value.defined? Code.lambda target (.lambda names inner) = some (name, code) at hdefined
      have hlambda := @analyze_lambda id scope _ _ hnames _ _ _ _ hbody
      unfold Derived.procedureDefinition
      rw [analyze_derivedForm]
      match target with
      | .atom (.symbol s) =>
          rw [Value.defined?] at hdefined
          cases hdefined
          rw [analyzeForm]
          exact bind_pure_eq_ok.mpr ⟨_, hlambda, rfl⟩
      | .list outer (target :: parameters) =>
          rw [analyzeForm]
          exact analyze_procedureDefinition target id outer (by rw [analyzeBody]; exact hlambda)
            hdefined
      | .list _ [] => cases hdefined
      | .atom (.bool _) => cases hdefined
      | .atom (.number _) => cases hdefined
      | .atom (.string _) => cases hdefined
      | .primitive _ => cases hdefined
      | .procedure .. => cases hdefined
      | .undefined => cases hdefined

theorem analyze_clause {body : List Val} {n m : Identity} {code : Code}
    (hbody : analyzeBody body n = .ok (code, m)) (id scope : Identity) (test : Val) :
    ∃ consequent, Derived.clause id (.list scope (test :: body)) =
        .ok (Derived.clauseTest test, consequent) ∧
      analyze consequent n = .ok (code, m) := by
  match body with
  | [] =>
      rw [analyzeBody] at hbody
      cases hbody
  | [e] =>
      rw [analyzeBody] at hbody
      exact ⟨e, rfl, hbody⟩
  | first :: second :: rest =>
      refine ⟨Derived.form id .sequence (first :: second :: rest), rfl, ?_⟩
      rw [analyze_derivedForm, analyzeForm]
      exact hbody

mutual

theorem Translates.analyze {n m : Identity} {e : Val} {code : Code}
    (h : Translates n e code m) :
    analyze e n = .ok (code, m) := by
  match h with
  | .constant hconstant =>
      rw [analyze_constant hconstant]
      rfl
  | .reference =>
      rw [analyze_symbol]
      rfl
  | .application hhead hoperator hoperands =>
      rw [analyze_application hhead]
      exact bind_eq_ok.mpr ⟨_, _, hoperator.analyze,
        bind_pure_eq_ok.mpr ⟨_, hoperands.analyzeEach, rfl⟩⟩
  | .form hhead hform =>
      rw [analyze_form hhead, blaming_eq_ok]
      exact hform.analyzeForm _

theorem TranslatesForm.analyzeForm {n m : Identity} {keyword : Keyword} {items : List Val}
    {code : Code}
    (h : TranslatesForm n keyword items code m) (id : Identity) :
    analyzeForm keyword id items n = .ok (code, m) := by
  match h with
  | .quote =>
      rw [Code.analyzeForm]
      rfl
  | .branchOnly htest hconsequent =>
      rw [Code.analyzeForm]
      exact bind_eq_ok.mpr ⟨_, _, htest.analyze, bind_pure_eq_ok.mpr ⟨_, hconsequent.analyze, rfl⟩⟩
  | .branch htest hconsequent halternative =>
      rw [Code.analyzeForm]
      exact bind_eq_ok.mpr ⟨_, _, htest.analyze, bind_eq_ok.mpr ⟨_, _, hconsequent.analyze,
        bind_pure_eq_ok.mpr ⟨_, halternative.analyze, rfl⟩⟩⟩
  | .sequence hbody =>
      rw [Code.analyzeForm]
      exact hbody.analyzeBody
  | .define hvalue =>
      rw [Code.analyzeForm]
      exact bind_pure_eq_ok.mpr ⟨_, hvalue.analyze, rfl⟩
  | .procedure hbody hdefined =>
      rw [Code.analyzeForm]
      exact analyze_procedureDefinition _ id _ hbody.analyzeBody hdefined
  | .assign hvalue =>
      rw [Code.analyzeForm]
      exact bind_pure_eq_ok.mpr ⟨_, hvalue.analyze, rfl⟩
  | .lambda hnames hbody =>
      rw [analyzeForm_lambda hnames]
      exact bind_pure_eq_ok.mpr ⟨_, hbody.analyzeBody, rfl⟩
  | .cond hclauses =>
      rcases hclauses.analyze id with ⟨e, hconditional, he⟩
      rw [analyzeForm_cond]
      refine bind_eq_ok.mpr ⟨n, n + 1, rfl, ?_⟩
      rw [hconditional]
      exact he
  | @TranslatesForm.letForm _ _ _ _ _ names values body _ _ hparts hbody hoperands =>
      have hlambda := @analyze_lambda id id _ _ (parameterNames_symbols names) _ _ _ _
        hbody.analyzeBody
      rw [analyzeForm_letForm, hparts]
      change Code.analyze
        (.list id (Derived.form id .lambda (.list id (names.map .symbol) :: body) :: values)) n = _
      rw [analyze_application rfl]
      exact bind_eq_ok.mpr ⟨_, _, hlambda, bind_pure_eq_ok.mpr ⟨_, hoperands.analyzeEach, rfl⟩⟩

theorem TranslatesEach.analyzeEach {n m : Identity} {es : List Val} {codes : List Code}
    (h : TranslatesEach n es codes m) :
    analyzeEach es n = .ok (codes, m) := by
  match h with
  | .nil =>
      rw [Code.analyzeEach]
      rfl
  | .cons he hes =>
      rw [Code.analyzeEach]
      exact bind_eq_ok.mpr ⟨_, _, he.analyze, bind_pure_eq_ok.mpr ⟨_, hes.analyzeEach, rfl⟩⟩

theorem TranslatesBody.analyzeBody {n m : Identity} {body : List Val} {code : Code}
    (h : TranslatesBody n body code m) :
    analyzeBody body n = .ok (code, m) := by
  match h with
  | .last he =>
      rw [Code.analyzeBody]
      exact he.analyze
  | .cons he hes =>
      rw [Code.analyzeBody]
      · exact bind_eq_ok.mpr ⟨_, _, he.analyze, bind_pure_eq_ok.mpr ⟨_, hes.analyzeBody, rfl⟩⟩
      · intro hnil
        subst hnil
        cases hes

theorem TranslatesClauses.analyze {ending n m : Identity} {clauses : List Val} {code : Code}
    (h : TranslatesClauses ending n clauses code m) (id : Identity) :
    ∃ e, Derived.conditional id (.list ending []) clauses = .ok e ∧
      Code.analyze e n = .ok (code, m) := by
  match h with
  | .nil =>
      refine ⟨_, rfl, ?_⟩
      rw [analyze_constant rfl]
      rfl
  | @TranslatesClauses.cons _ _ _ _ _ scope test _ _ _ _ _ htest hbody hclauses =>
      rcases hclauses.analyze id with ⟨e, hconditional, he⟩
      rcases analyze_clause hbody.analyzeBody id scope test with
        ⟨consequent, hclause, hconsequent⟩
      refine ⟨Derived.form id .branch [Derived.clauseTest test, consequent, e], ?_, ?_⟩
      · simp only [Derived.conditional, hconditional, hclause]
      · rw [analyze_derivedForm, Code.analyzeForm]
        exact bind_eq_ok.mpr ⟨_, _, htest.analyze, bind_eq_ok.mpr ⟨_, _, hconsequent,
          bind_pure_eq_ok.mpr ⟨_, he, rfl⟩⟩⟩

end

/-!
# From analysis to the rules

What the expression of a derived form becomes is what the rule for the form says.
-/

theorem Translates.of_derivedForm {n m id : Identity} {keyword : Keyword} {items : List Val}
    {code : Code}
    (h : Translates n (Derived.form id keyword items) code m) :
    TranslatesForm n keyword items code m := by
  have hkeyword := Derived.ofHead?_symbol (β := Code) keyword
  cases h with
  | constant hconstant => cases hconstant
  | application hhead =>
      rw [hkeyword] at hhead
      cases hhead
  | form hhead hform =>
      rw [hkeyword] at hhead
      cases hhead
      exact hform

theorem Translates.of_lambda {n m id scope : Identity} {parameters body : List Val}
    {code : Code}
    (h : Translates n (Derived.form id .lambda (.list scope parameters :: body)) code m) :
    ∃ names inner, Derived.parameterNames parameters = .ok names ∧
      TranslatesBody n body inner m ∧ code = .lambda names inner := by
  cases h.of_derivedForm with
  | lambda hnames hbody => exact ⟨_, _, hnames, hbody, rfl⟩

theorem Translates.of_procedureDefinition {n m id scope : Identity} {target : Val}
    {parameters body : List Val} {code : Code}
    (h : Translates n (Derived.procedureDefinition id scope target parameters body) code m) :
    TranslatesForm n .define (.list scope (target :: parameters) :: body) code m := by
  cases h.of_derivedForm with
  | define hvalue =>
      rcases hvalue.of_lambda with ⟨names, inner, hnames, hbody, rfl⟩
      apply TranslatesForm.procedure hbody
      rw [Value.defined?, hnames]
      rfl
  | procedure hbody hdefined =>
      cases hbody with
      | last hlambda =>
          rcases hlambda.of_lambda with ⟨names, inner, hnames, hbody, rfl⟩
          apply TranslatesForm.procedure hbody
          rw [Value.defined?, hnames]
          exact hdefined
      | cons _ hnothing => cases hnothing

theorem translatesBody_of_clause {id : Identity} {clause test consequent : Val}
    (hclause : Derived.clause id clause = .ok (test, consequent)) :
    ∃ scope t body, clause = .list scope (t :: body) ∧ test = Derived.clauseTest t ∧
      ∀ {n m code}, Translates n consequent code m → TranslatesBody n body code m := by
  unfold Derived.clause at hclause
  split at hclause
  · cases hclause
  · cases hclause
    exact ⟨_, _, _, rfl, rfl, fun h => .last h⟩
  · cases hclause
    refine ⟨_, _, _, rfl, rfl, fun h => ?_⟩
    cases h.of_derivedForm with
    | sequence hbody => exact hbody
  · cases hclause

theorem translatesClauses_of_conditional {id ending : Identity} {clauses : List Val} {e : Val}
    (hconditional : Derived.conditional id (.list ending []) clauses = .ok e)
    {n m : Identity} {code : Code}
    (h : Translates n e code m) :
    TranslatesClauses ending n clauses code m := by
  induction clauses generalizing e n code with
  | nil =>
      cases hconditional
      cases h with
      | constant => exact .nil
  | cons clause clauses ih =>
      simp only [Derived.conditional] at hconditional
      split at hconditional
      · cases hconditional
      · rename_i alternative halternative
        split at hconditional
        · cases hconditional
        · rename_i test consequent hclause
          cases hconditional
          rcases translatesBody_of_clause hclause with ⟨scope, t, body, rfl, rfl, hbody⟩
          cases h.of_derivedForm with
          | branch htest hconsequent hrest =>
              exact .cons htest (hbody hconsequent) (ih halternative hrest)

theorem Translates.of_localScope {n m id scope : Identity} {bindings : List Val}
    {names : List Symbol} {values body : List Val}
    (hparts : Derived.bindingParts bindings = .ok (names, values)) {code : Code}
    (h : Translates n (Derived.localScope id names values body) code m) :
    TranslatesForm n .letForm (.list scope bindings :: body) code m := by
  cases h with
  | constant hconstant => cases hconstant
  | form hhead => cases hhead
  | application _ hoperator hoperands =>
      rcases hoperator.of_lambda with ⟨names', inner, hnames, hbody, rfl⟩
      rw [parameterNames_symbols] at hnames
      cases hnames
      exact .letForm hparts hbody hoperands

/-- The code that analysis makes of an expression is what the rules make of it. -/
def ByRules (e : Val) : Prop :=
  ∀ n m code, analyze e n = .ok (code, m) → Translates n e code m

def EachByRules (es : List Val) : Prop :=
  ∀ n m codes, analyzeEach es n = .ok (codes, m) → TranslatesEach n es codes m

def FormByRules (keyword : Keyword) (id : Identity) (items : List Val) : Prop :=
  ∀ n m code, analyzeForm keyword id items n = .ok (code, m) →
    TranslatesForm n keyword items code m

def BodyByRules (body : List Val) : Prop :=
  ∀ n m code, analyzeBody body n = .ok (code, m) → TranslatesBody n body code m

section

variable {id scope : Identity} {e head test consequent value : Val} {es body rest : List Val}
  {keyword : Keyword} {name : Symbol}

theorem byRules_symbol (name : Symbol) : ByRules (.symbol name) := by
  intro n m code h
  rw [analyze_symbol, pure_eq_ok] at h
  rcases h with ⟨rfl, rfl⟩
  exact .reference

theorem byRules_constant (hconstant : e.isConstant = true) : ByRules e := by
  intro n m code h
  rw [analyze_constant hconstant, pure_eq_ok] at h
  rcases h with ⟨rfl, rfl⟩
  exact .constant hconstant

theorem ByRules.application (hhead : Keyword.ofHead? head = none) (hoperator : ByRules head)
    (hoperands : EachByRules rest) :
    ByRules (.list id (head :: rest)) := by
  intro n m code h
  rw [analyze_application hhead, bind_eq_ok] at h
  rcases h with ⟨operator, k, ho, h⟩
  rw [bind_pure_eq_ok] at h
  rcases h with ⟨operands, hos, rfl⟩
  exact .application hhead (hoperator _ _ _ ho) (hoperands _ _ _ hos)

theorem ByRules.form (hhead : Keyword.ofHead? head = some keyword)
    (hform : FormByRules keyword id rest) :
    ByRules (.list id (head :: rest)) := by
  intro n m code h
  rw [analyze_form hhead, blaming_eq_ok] at h
  exact .form hhead (hform n m code h)

theorem eachByRules_nil : EachByRules [] := by
  intro n m codes h
  rw [analyzeEach, pure_eq_ok] at h
  rcases h with ⟨rfl, rfl⟩
  exact .nil

theorem EachByRules.cons (he : ByRules e) (hes : EachByRules es) : EachByRules (e :: es) := by
  intro n m codes h
  rw [analyzeEach, bind_eq_ok] at h
  rcases h with ⟨code, k, hcode, h⟩
  rw [bind_pure_eq_ok] at h
  rcases h with ⟨codes, hcodes, rfl⟩
  exact .cons (he _ _ _ hcode) (hes _ _ _ hcodes)

theorem bodyByRules_nil : BodyByRules [] := by
  intro n m code h
  rw [analyzeBody] at h
  exact absurd h fail_ne_ok

theorem BodyByRules.last (he : ByRules e) : BodyByRules [e] := by
  intro n m code h
  rw [analyzeBody] at h
  exact .last (he _ _ _ h)

theorem BodyByRules.cons {second : Val} (he : ByRules e) (hrest : BodyByRules (second :: rest)) :
    BodyByRules (e :: second :: rest) := by
  intro n m code h
  rw [analyzeBody_cons, bind_eq_ok] at h
  rcases h with ⟨first, k, hfirst, h⟩
  rw [bind_pure_eq_ok] at h
  rcases h with ⟨codes, hcodes, rfl⟩
  exact .cons (he _ _ _ hfirst) (hrest _ _ _ hcodes)

theorem formByRules_quote (datum : Val) : FormByRules .quote id [datum] := by
  intro n m code h
  rw [analyzeForm, pure_eq_ok] at h
  rcases h with ⟨rfl, rfl⟩
  exact .quote

theorem FormByRules.branchOnly (htest : ByRules test) (hconsequent : ByRules consequent) :
    FormByRules .branch id [test, consequent] := by
  intro n m code h
  rw [analyzeForm, bind_eq_ok] at h
  rcases h with ⟨t, k, ht, h⟩
  rw [bind_pure_eq_ok] at h
  rcases h with ⟨c, hc, rfl⟩
  exact .branchOnly (htest _ _ _ ht) (hconsequent _ _ _ hc)

theorem FormByRules.branch {alternative : Val} (htest : ByRules test)
    (hconsequent : ByRules consequent) (halternative : ByRules alternative) :
    FormByRules .branch id [test, consequent, alternative] := by
  intro n m code h
  rw [analyzeForm, bind_eq_ok] at h
  rcases h with ⟨t, k, ht, h⟩
  rw [bind_eq_ok] at h
  rcases h with ⟨c, l, hc, h⟩
  rw [bind_pure_eq_ok] at h
  rcases h with ⟨a, ha, rfl⟩
  exact .branch (htest _ _ _ ht) (hconsequent _ _ _ hc) (halternative _ _ _ ha)

theorem FormByRules.sequence (hbody : BodyByRules body) : FormByRules .sequence id body := by
  intro n m code h
  rw [analyzeForm] at h
  exact .sequence (hbody _ _ _ h)

theorem FormByRules.define (hvalue : ByRules value) :
    FormByRules .define id [.symbol name, value] := by
  intro n m code h
  rw [analyzeForm, bind_pure_eq_ok] at h
  rcases h with ⟨v, hv, rfl⟩
  exact .define (hvalue _ _ _ hv)

theorem FormByRules.procedure {target : Val} {parameters : List Val}
    (h : ByRules (Derived.procedureDefinition id scope target parameters body)) :
    FormByRules .define id (.list scope (target :: parameters) :: body) := by
  intro n m code hcode
  rw [analyzeForm] at hcode
  exact (h _ _ _ hcode).of_procedureDefinition

theorem FormByRules.assign (hvalue : ByRules value) :
    FormByRules .assign id [.symbol name, value] := by
  intro n m code h
  rw [analyzeForm, bind_pure_eq_ok] at h
  rcases h with ⟨v, hv, rfl⟩
  exact .assign (hvalue _ _ _ hv)

theorem FormByRules.lambda {parameters : List Val} {names : List Symbol}
    (hnames : Derived.parameterNames parameters = .ok names) (hbody : BodyByRules body) :
    FormByRules .lambda id (.list scope parameters :: body) := by
  intro n m code h
  rw [analyzeForm_lambda hnames, bind_pure_eq_ok] at h
  rcases h with ⟨inner, hinner, rfl⟩
  exact .lambda hnames (hbody _ _ _ hinner)

theorem FormByRules.cond {clauses : List Val}
    (hexpansion : ∀ ending e, Derived.conditional id (.list ending []) clauses = .ok e →
      ByRules e) :
    FormByRules .cond id clauses := by
  intro n m code h
  rw [analyzeForm_cond, bind_eq_ok] at h
  rcases h with ⟨ending, k, hfresh, h⟩
  cases hfresh
  cases he : Derived.conditional id (.list n []) clauses with
  | error cause =>
      rw [he] at h
      exact absurd h fail_ne_ok
  | ok e =>
      rw [he] at h
      exact .cond (translatesClauses_of_conditional he (hexpansion n e he _ _ _ h))

theorem FormByRules.letForm {bindings values : List Val} {names : List Symbol}
    (hparts : Derived.bindingParts bindings = .ok (names, values))
    (hscope : ByRules (Derived.localScope id names values body)) :
    FormByRules .letForm id (.list scope bindings :: body) := by
  intro n m code h
  rw [analyzeForm_letForm, hparts] at h
  exact (hscope _ _ _ h).of_localScope hparts

theorem FormByRules.refused {items : List Val} {cause : Fault.Cause}
    (h : keyword.Refuses items cause) : FormByRules keyword id items := by
  intro n m code hcode
  rw [analyzeForm_of_refuses h] at hcode
  exact absurd hcode fail_ne_ok

end

theorem byRules_induction : AnalysisInduction ByRules EachByRules FormByRules BodyByRules where
  symbol := byRules_symbol
  constant := byRules_constant
  application := .application
  form := .form
  none := eachByRules_nil
  each := .cons
  quote := formByRules_quote
  branchOnly := .branchOnly
  branch := .branch
  sequence := .sequence
  define := .define
  procedure := .procedure
  assign := .assign
  lambda := .lambda
  cond := .cond
  letForm := .letForm
  refused := .refused
  empty := bodyByRules_nil
  last := .last
  body := .cons

/-- Analysis makes code of an expression exactly when the rules do. -/
theorem analyze_eq_ok_iff {e : Val} {n m : Identity} {code : Code} :
    analyze e n = .ok (code, m) ↔ Translates n e code m :=
  ⟨byRules_induction.all.1 e n m code, Translates.analyze⟩

end Code
end MiniLisp
