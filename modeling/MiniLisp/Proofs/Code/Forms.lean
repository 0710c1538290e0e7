import MiniLisp.Code.Analysis

/-!
# Forms and their analysis

Analysis has one equation for each kind of expression.  A keyword form either has a shape that one
of these equations takes apart, or is refused at once, for a cause that its shape tells.  What has
to be shown of all expressions is therefore shown of each kind of them, and of refused forms once.

## Main statements

* `Code.analyzeForm_of_refuses`: refused forms are not analyzed any further.
* `Code.AnalysisInduction.all`: what each kind of expression hands on from its parts holds of all
  expressions, forms and bodies.
-/

namespace MiniLisp

/-- An expression that is its own value. -/
def Value.isConstant {β : Type} : Value β → Bool
  | .atom (.symbol _) => false
  | .list _ (_ :: _) => false
  | _ => true

inductive Keyword.Refuses {β : Type} : Keyword → List (Value β) → Fault.Cause → Prop where
  | quote {items} :
      (∀ datum, items ≠ [datum]) →
      Keyword.Refuses .quote items .quoteOperands
  | branch {items} :
      (∀ test consequent, items ≠ [test, consequent]) →
      (∀ test consequent alternative, items ≠ [test, consequent, alternative]) →
      Keyword.Refuses .branch items .branchOperands
  | nameless {scope rest} :
      Keyword.Refuses .define (.list scope [] :: rest) .defineWithoutName
  | operands {name rest} :
      (∀ value, rest ≠ [value]) →
      Keyword.Refuses .define (.symbol name :: rest) (.defineOperands name)
  | target {items} :
      (∀ scope signature rest, items ≠ .list scope signature :: rest) →
      (∀ name rest, items ≠ .symbol name :: rest) →
      Keyword.Refuses .define items .defineTarget
  | assign {items} :
      (∀ name value, items ≠ [.symbol name, value]) →
      Keyword.Refuses .assign items .assignOperands
  | parameters {scope parameters body cause} :
      Derived.parameterNames parameters = .error cause →
      Keyword.Refuses .lambda (.list scope parameters :: body) cause
  | lambda {items} :
      (∀ scope parameters body, items ≠ .list scope parameters :: body) →
      Keyword.Refuses .lambda items .lambdaParameters
  | bindings {scope bindings body cause} :
      Derived.bindingParts bindings = .error cause →
      Keyword.Refuses .letForm (.list scope bindings :: body) cause
  | letForm {items} :
      (∀ scope bindings body, items ≠ .list scope bindings :: body) →
      Keyword.Refuses .letForm items .letBindings

namespace Code

/-!
## Equations of analysis
-/

theorem analyze_symbol (name : Symbol) :
    analyze (.symbol name) = pure (.reference name) := by
  rw [analyze]

theorem analyze_constant {e : Val}
    (h : e.isConstant = true) :
    analyze e = pure (.literal e) := by
  cases e with
  | atom a =>
      cases a with
      | symbol name => cases h
      | _ => rw [analyze] <;> simp
  | list id items =>
      cases items with
      | nil => rw [analyze] <;> simp
      | cons head rest => cases h
  | _ => rw [analyze] <;> simp

theorem analyze_form {head : Val} {keyword : Keyword}
    (h : Keyword.ofHead? head = some keyword)
    (id : Identity) (rest : List Val) :
    analyze (.list id (head :: rest)) =
      Analysis.blaming (.list id (head :: rest)) (analyzeForm keyword id rest) := by
  rw [analyze]
  split
  · rename_i k hk
    rw [h] at hk
    cases hk
    rfl
  · rename_i hk
    rw [h] at hk
    cases hk

theorem analyze_application {head : Val}
    (h : Keyword.ofHead? head = none)
    (id : Identity) (rest : List Val) :
    analyze (.list id (head :: rest)) = (do
      let operator ← analyze head
      let operands ← analyzeEach rest
      pure (.application operator operands)) := by
  rw [analyze]
  split
  · rename_i k hk
    rw [h] at hk
    cases hk
  · rfl

theorem analyzeForm_lambda {parameters : List Val} {names : List Symbol}
    (h : Derived.parameterNames parameters = .ok names)
    (id scope : Identity) (body : List Val) :
    analyzeForm .lambda id (.list scope parameters :: body) = (do
      let code ← analyzeBody body
      pure (.lambda names code)) := by
  rw [analyzeForm]
  simp only [h]

theorem analyzeForm_cond (id : Identity) (clauses : List Val) :
    analyzeForm .cond id clauses = (do
      let ending ← Analysis.fresh
      match Derived.conditional id (.list ending []) clauses with
      | .error cause => Analysis.fail cause
      | .ok e => analyze e) := by
  rw [analyzeForm]
  apply congrArg
  funext ending
  split <;> rename_i h <;> rw [h]

theorem analyzeForm_letForm (id scope : Identity) (bindings body : List Val) :
    analyzeForm .letForm id (.list scope bindings :: body) =
      match Derived.bindingParts bindings with
      | .error cause => Analysis.fail cause
      | .ok (names, values) => analyze (Derived.localScope id names values body) := by
  rw [analyzeForm]
  split <;> rename_i h <;> rw [h]

theorem analyzeBody_cons (first second : Val) (rest : List Val) :
    analyzeBody (first :: second :: rest) = (do
      let code ← analyze first
      let codes ← analyzeBody (second :: rest)
      pure (.andThen code codes)) := by
  rw [analyzeBody]
  exact List.cons_ne_nil second rest

theorem analyzeForm_of_refuses {keyword : Keyword} {items : List Val} {cause : Fault.Cause}
    (h : keyword.Refuses items cause) (id : Identity) :
    analyzeForm keyword id items = Analysis.fail cause := by
  cases h with
  | quote hshape =>
      rw [analyzeForm]
      exact hshape
  | branch htwo hthree =>
      rw [analyzeForm]
      · exact htwo
      · exact hthree
  | nameless => rw [analyzeForm]
  | operands hshape =>
      rw [analyzeForm]
      exact hshape
  | target hsignature hname =>
      rw [analyzeForm]
      · exact fun scope name parameters body => hsignature scope (name :: parameters) body
      · exact fun scope rest => hsignature scope [] rest
      · exact fun name value => hname name [value]
      · exact hname
  | assign hshape =>
      rw [analyzeForm]
      exact hshape
  | parameters hnames =>
      rw [analyzeForm]
      simp only [hnames]
  | lambda hshape =>
      rw [analyzeForm]
      exact hshape
  | bindings hparts => rw [analyzeForm_letForm, hparts]
  | letForm hshape =>
      rw [analyzeForm]
      exact hshape

/-!
## Induction along analysis
-/

variable {Expression : Val → Prop} {Each : List Val → Prop}
  {Form : Keyword → Identity → List Val → Prop} {Body : List Val → Prop}

/-- What has to be shown of each kind of expression, given that it holds of what is analyzed on the
way. -/
structure AnalysisInduction (Expression : Val → Prop) (Each : List Val → Prop)
    (Form : Keyword → Identity → List Val → Prop) (Body : List Val → Prop) : Prop where
  symbol : ∀ name, Expression (.symbol name)
  constant : ∀ {e}, e.isConstant = true → Expression e
  application : ∀ {id head rest}, Keyword.ofHead? head = none →
    Expression head → Each rest → Expression (.list id (head :: rest))
  form : ∀ {id head rest keyword}, Keyword.ofHead? head = some keyword →
    Form keyword id rest → Expression (.list id (head :: rest))
  none : Each []
  each : ∀ {e rest}, Expression e → Each rest → Each (e :: rest)
  quote : ∀ {id} datum, Form .quote id [datum]
  branchOnly : ∀ {id test consequent},
    Expression test → Expression consequent → Form .branch id [test, consequent]
  branch : ∀ {id test consequent alternative},
    Expression test → Expression consequent → Expression alternative →
    Form .branch id [test, consequent, alternative]
  sequence : ∀ {id body}, Body body → Form .sequence id body
  define : ∀ {id name value}, Expression value → Form .define id [.symbol name, value]
  procedure : ∀ {id scope target parameters body},
    Expression (Derived.procedureDefinition id scope target parameters body) →
    Form .define id (.list scope (target :: parameters) :: body)
  assign : ∀ {id name value}, Expression value → Form .assign id [.symbol name, value]
  lambda : ∀ {id scope parameters body names}, Derived.parameterNames parameters = .ok names →
    Body body → Form .lambda id (.list scope parameters :: body)
  cond : ∀ {id clauses},
    (∀ ending e, Derived.conditional id (.list ending []) clauses = .ok e → Expression e) →
    Form .cond id clauses
  letForm : ∀ {id scope bindings body names values},
    Derived.bindingParts bindings = .ok (names, values) →
    Expression (Derived.localScope id names values body) →
    Form .letForm id (.list scope bindings :: body)
  refused : ∀ {keyword id items cause}, keyword.Refuses items cause → Form keyword id items
  empty : Body []
  last : ∀ {e}, Expression e → Body [e]
  body : ∀ {e second rest}, Expression e → Body (second :: rest) → Body (e :: second :: rest)

theorem AnalysisInduction.all (h : AnalysisInduction Expression Each Form Body) :
    (∀ e, Expression e) ∧ (∀ es, Each es) ∧ (∀ keyword id items, Form keyword id items) ∧
      (∀ body, Body body) := by
  refine analyze.mutual_induct Expression Each Form Body
    ?symbol ?form ?application ?constant ?none ?each ?quote ?badQuote ?branchOnly ?branch
    ?badBranch ?sequence ?procedure ?nameless ?define ?badOperands ?badTarget ?assign ?badAssign
    ?badParameter ?lambda ?badLambda ?cond ?badBinding ?letForm ?badLet ?empty ?last ?body
  case symbol => exact h.symbol
  case form => exact fun _ _ _ _ => h.form
  case application => exact fun _ _ _ => h.application
  case constant =>
    intro e hsymbol hlist
    apply h.constant
    unfold Value.isConstant
    split
    · exact (hsymbol _ rfl).elim
    · exact (hlist _ _ _ rfl).elim
    · rfl
  case none => exact h.none
  case each => exact fun _ _ => h.each
  case quote => exact fun _ => h.quote
  case badQuote => exact fun _ _ hshape => h.refused (.quote hshape)
  case branchOnly => exact fun _ _ _ => h.branchOnly
  case branch => exact fun _ _ _ _ => h.branch
  case badBranch => exact fun _ _ htwo hthree => h.refused (.branch htwo hthree)
  case sequence => exact fun _ _ => h.sequence
  case procedure => exact fun _ _ _ _ _ => h.procedure
  case nameless => exact fun _ _ _ => h.refused .nameless
  case define => exact fun _ _ _ => h.define
  case badOperands => exact fun _ _ _ hshape => h.refused (.operands hshape)
  case badTarget =>
    intro id items hprocedure hnameless _ hname
    refine h.refused (.target ?_ hname)
    intro scope signature rest
    cases signature with
    | nil => exact hnameless scope rest
    | cons target parameters => exact hprocedure scope target parameters rest
  case assign => exact fun _ _ _ => h.assign
  case badAssign => exact fun _ _ hshape => h.refused (.assign hshape)
  case badParameter => exact fun _ _ _ _ _ hnames => h.refused (.parameters hnames)
  case lambda => exact fun _ _ _ _ _ => h.lambda
  case badLambda => exact fun _ _ hshape => h.refused (.lambda hshape)
  case cond => exact fun _ _ => h.cond
  case badBinding => exact fun _ _ _ _ _ hparts => h.refused (.bindings hparts)
  case letForm => exact fun _ _ _ _ _ _ => h.letForm
  case badLet => exact fun _ _ hshape => h.refused (.letForm hshape)
  case empty => exact h.empty
  case last => exact fun _ => h.last
  case body =>
    intro e rest hrest he
    cases rest with
    | nil => exact absurd rfl hrest
    | cons second rest => exact h.body he

end Code
end MiniLisp
