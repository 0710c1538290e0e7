import MiniLisp.Proofs.Code.Translation

/-!
# Analysis ends

Analysis of an expression asks for the analysis of others: of parts of it, and, for a derived form,
of the expression that the form stands for.  That expression can be the larger one and can start
with the same keyword again, but it weighs less.  So there is one way only to follow the rules of
analysis, and it never goes deeper than the weight of the expression.

## Main statement

* `Code.analysis_ends`: what analysis asks for weighs less, and analysis is what its rules make of
  any function that is asked so often.
-/

namespace MiniLisp
namespace Code

open Analysis (fail)

/-!
# What analysis asks for
-/

inductive FormDemands : Keyword → Identity → List Val → Val → Prop where
  | branch {id items e} :
      e ∈ items →
      FormDemands .branch id items e
  | sequence {id body e} :
      e ∈ body →
      FormDemands .sequence id body e
  | procedure {id signature target parameters body} :
      FormDemands .define id (.list signature (target :: parameters) :: body)
        (Derived.procedureDefinition id signature target parameters body)
  | define {id name value} :
      FormDemands .define id [.symbol name, value] value
  | assign {id name value} :
      FormDemands .assign id [.symbol name, value] value
  | lambda {id scope parameters body e} :
      e ∈ body →
      FormDemands .lambda id (.list scope parameters :: body) e
  | cond {id ending clauses e} :
      Derived.conditional id (.list ending []) clauses = .ok e →
      FormDemands .cond id clauses e
  | letForm {id scope bindings names values body} :
      Derived.bindingParts bindings = .ok (names, values) →
      FormDemands .letForm id (.list scope bindings :: body)
        (Derived.localScope id names values body)

/-- Analysis of an expression may ask for that of another one. -/
inductive Demands : Val → Val → Prop where
  | operator {id head rest} :
      Keyword.ofHead? head = none →
      Demands (.list id (head :: rest)) head
  | operand {id head rest e} :
      Keyword.ofHead? head = none →
      e ∈ rest →
      Demands (.list id (head :: rest)) e
  | form {id head rest keyword e} :
      Keyword.ofHead? head = some keyword →
      FormDemands keyword id rest e →
      Demands (.list id (head :: rest)) e

/-!
# One round of analysis
-/

def bodyWith (f : Val → Analysis Code) : List Val → Analysis Code
  | [] => fail .emptySequence
  | [e] => f e
  | e :: rest => do
      let first ← f e
      let second ← bodyWith f rest
      pure (.andThen first second)

def formWith (f : Val → Analysis Code) (keyword : Keyword) (id : Identity) (items : List Val) :
    Analysis Code :=
  match keyword, items with
  | .quote, [datum] => pure (.literal datum)
  | .quote, _ => fail .quoteOperands
  | .branch, [test, consequent] => do
      let t ← f test
      let c ← f consequent
      pure (.branch t c (.literal .undefined))
  | .branch, [test, consequent, alternative] => do
      let t ← f test
      let c ← f consequent
      let a ← f alternative
      pure (.branch t c a)
  | .branch, _ => fail .branchOperands
  | .sequence, body => bodyWith f body
  | .define, .list signature (name :: parameters) :: body =>
      f (Derived.procedureDefinition id signature name parameters body)
  | .define, .list _ [] :: _ => fail .defineWithoutName
  | .define, [.atom (.symbol name), value] => do
      let v ← f value
      pure (.define name v)
  | .define, .atom (.symbol name) :: _ => fail (.defineOperands name)
  | .define, _ => fail .defineTarget
  | .assign, [.atom (.symbol name), value] => do
      let v ← f value
      pure (.assign name v)
  | .assign, _ => fail .assignOperands
  | .lambda, .list _ parameters :: body =>
      match Derived.parameterNames parameters with
      | .error cause => fail cause
      | .ok names => do
          let code ← bodyWith f body
          pure (.lambda names code)
  | .lambda, _ => fail .lambdaParameters
  | .cond, clauses => do
      let ending ← Analysis.fresh
      match Derived.conditional id (.list ending []) clauses with
      | .error cause => fail cause
      | .ok e => f e
  | .letForm, .list _ bindings :: body =>
      match Derived.bindingParts bindings with
      | .error cause => fail cause
      | .ok (names, values) => f (Derived.localScope id names values body)
  | .letForm, _ => fail .letBindings

/-- The code of an expression, given the analysis of what it asks for. -/
def analyzeWith (f : Val → Analysis Code) : Val → Analysis Code
  | .atom (.symbol name) => pure (.reference name)
  | .list id (head :: rest) =>
      match Keyword.ofHead? head with
      | some keyword =>
          Analysis.blaming (.list id (head :: rest)) (formWith f keyword id rest)
      | none => do
          let operator ← f head
          let operands ← rest.mapM f
          pure (.application operator operands)
  | other => pure (.literal other)

variable {f g : Val → Analysis Code}

theorem bodyWith_congr {body : List Val} (h : ∀ e ∈ body, f e = g e) :
    bodyWith f body = bodyWith g body := by
  induction body with
  | nil => rfl
  | cons e rest ih =>
      rw [List.forall_mem_cons] at h
      cases rest with
      | nil => exact h.1
      | cons next rest =>
          simp only [bodyWith] at ih ⊢
          rw [h.1, ih h.2]

theorem formWith_congr {keyword : Keyword} {id : Identity} {items : List Val}
    (h : ∀ e, FormDemands keyword id items e → f e = g e) :
    formWith f keyword id items = formWith g keyword id items := by
  refine formWith.fun_cases
    (fun keyword items => (∀ e, FormDemands keyword id items e → f e = g e) →
      formWith f keyword id items = formWith g keyword id items)
    ?quote ?badQuote ?branchOnly ?branch ?badBranch ?sequence ?procedure ?nameless ?define
    ?badOperands ?badTarget ?assign ?badAssign ?badParameter ?lambda ?badLambda ?cond ?badBinding
    ?letForm ?badLet keyword items h
  case branchOnly =>
    intro test consequent h
    rw [formWith, formWith, h test (.branch (by simp)), h consequent (.branch (by simp))]
  case branch =>
    intro test consequent alternative h
    rw [formWith, formWith, h test (.branch (by simp)), h consequent (.branch (by simp)),
      h alternative (.branch (by simp))]
  case sequence =>
    intro body h
    exact bodyWith_congr fun e he => h e (.sequence he)
  case procedure =>
    intro signature target parameters body h
    exact h _ .procedure
  case define =>
    intro name value h
    rw [formWith, formWith, h value .define]
  case assign =>
    intro name value h
    rw [formWith, formWith, h value .assign]
  case lambda =>
    intro scope parameters body names hnames h
    rw [formWith, formWith, hnames]
    simp only
    rw [bodyWith_congr fun e he => h e (.lambda he)]
  case cond =>
    intro clauses h
    rw [formWith, formWith]
    apply congrArg
    funext ending
    cases he : Derived.conditional id (.list ending []) clauses with
    | error cause => rfl
    | ok e => exact h e (.cond he)
  case letForm =>
    intro scope bindings body names values hparts h
    rw [formWith, formWith, hparts]
    exact h _ (.letForm hparts)
  case badParameter =>
    intro scope parameters body cause hnames _
    rw [formWith, formWith, hnames]
  case badBinding =>
    intro scope bindings body cause hparts _
    rw [formWith, formWith, hparts]
  all_goals
    intros
    rw [formWith, formWith]
    all_goals assumption

theorem mapM_congr {es : List Val} (h : ∀ e ∈ es, f e = g e) : es.mapM f = es.mapM g := by
  induction es with
  | nil => rfl
  | cons e rest ih =>
      rw [List.forall_mem_cons] at h
      rw [List.mapM_cons, List.mapM_cons, h.1, ih h.2]

theorem analyzeWith_congr {e : Val} (h : ∀ e', Demands e e' → f e' = g e') :
    analyzeWith f e = analyzeWith g e := by
  refine analyzeWith.fun_cases
    (fun e => (∀ e', Demands e e' → f e' = g e') → analyzeWith f e = analyzeWith g e)
    ?symbol ?form ?application ?constant e h
  case symbol =>
    intro name _
    rw [analyzeWith, analyzeWith]
  case form =>
    intro id head rest keyword hhead h
    rw [analyzeWith, analyzeWith, hhead]
    simp only
    rw [formWith_congr fun e he => h e (.form hhead he)]
  case application =>
    intro id head rest hhead h
    rw [analyzeWith, analyzeWith, hhead]
    simp only
    rw [h head (.operator hhead), mapM_congr fun e he => h e (.operand hhead he)]
  case constant =>
    intro e hsymbol hlist _
    rw [analyzeWith, analyzeWith]
    all_goals assumption

/-!
# Analysis goes by its rounds
-/

theorem analyzeEach_eq_mapM (es : List Val) : analyzeEach es = es.mapM analyze := by
  induction es with
  | nil => rw [analyzeEach, List.mapM_nil]
  | cons e rest ih => rw [analyzeEach, List.mapM_cons, ih]

theorem analyzeBody_eq_bodyWith (body : List Val) : analyzeBody body = bodyWith analyze body := by
  induction body with
  | nil => rw [analyzeBody, bodyWith]
  | cons e rest ih =>
      cases rest with
      | nil => rw [analyzeBody, bodyWith]
      | cons next rest => rw [analyzeBody, bodyWith, ih] <;> simp

theorem analyzeForm_eq_formWith (keyword : Keyword) (id : Identity) (items : List Val) :
    analyzeForm keyword id items = formWith analyze keyword id items := by
  refine formWith.fun_cases
    (fun keyword items => analyzeForm keyword id items = formWith analyze keyword id items)
    ?quote ?badQuote ?branchOnly ?branch ?badBranch ?sequence ?procedure ?nameless ?define
    ?badOperands ?badTarget ?assign ?badAssign ?badParameter ?lambda ?badLambda ?cond ?badBinding
    ?letForm ?badLet keyword items
  case sequence =>
    intro body
    rw [analyzeForm, formWith, analyzeBody_eq_bodyWith]
  case lambda =>
    intro scope parameters body names hnames
    rw [analyzeForm, formWith, hnames, analyzeBody_eq_bodyWith]
  case badParameter =>
    intro scope parameters body cause hnames
    rw [analyzeForm, formWith, hnames]
  case cond => exact fun clauses => analyzeForm_cond id clauses
  case letForm =>
    intro scope bindings body names values hparts
    rw [analyzeForm_letForm, formWith, hparts]
  case badBinding =>
    intro scope bindings body cause hparts
    rw [analyzeForm_letForm, formWith, hparts]
  all_goals
    intros
    rw [analyzeForm, formWith]
    all_goals assumption

theorem analyze_eq_analyzeWith (e : Val) : analyze e = analyzeWith analyze e := by
  refine analyzeWith.fun_cases (fun e => analyze e = analyzeWith analyze e)
    ?symbol ?form ?application ?constant e
  case symbol =>
    intro name
    rw [analyze_symbol, analyzeWith]
  case form =>
    intro id head rest keyword hhead
    rw [analyze_form hhead, analyzeForm_eq_formWith, analyzeWith, hhead]
  case application =>
    intro id head rest hhead
    rw [analyze_application hhead, analyzeEach_eq_mapM, analyzeWith, hhead]
  case constant =>
    intro e hsymbol hlist
    rw [analyze, analyzeWith]
    all_goals assumption

/-!
# Weights
-/

theorem weight_lt_of_mem {e : Val} {items : List Val} (h : e ∈ items) :
    e.weight < Value.itemsWeight items := by
  induction h with
  | head rest =>
      rw [Value.itemsWeight]
      omega
  | tail _ _ ih =>
      rw [Value.itemsWeight]
      omega

theorem FormDemands.weight_lt {keyword : Keyword} {id : Identity} {items : List Val} {e : Val}
    (h : FormDemands keyword id items e) :
    e.weight < 1 + Value.formWeight keyword items := by
  cases h with
  | branch he | sequence he | lambda he =>
      have := weight_lt_of_mem he
      simp only [Value.formWeight, Value.itemsWeight]
      omega
  | procedure => exact Nat.lt_add_left 1 (Derived.weight_procedureDefinition_lt ..)
  | define | assign =>
      simp only [Value.formWeight, Value.definitionWeight, Value.itemsWeight]
      omega
  | cond he => exact Nat.lt_add_left 1 (Derived.weight_conditional_lt he)
  | @letForm _ scope bindings _ _ body hparts =>
      change _ < 1 + Value.scopeWeight (.list scope bindings :: body)
      exact Nat.lt_add_left 1 (Derived.weight_localScope_lt body hparts)

theorem Demands.weight_lt {e e' : Val} (h : Demands e e') : e'.weight < e.weight := by
  cases h with
  | operator hhead =>
      rw [Value.weight_of_application hhead]
      omega
  | operand hhead he =>
      have := weight_lt_of_mem he
      rw [Value.weight_of_application hhead]
      omega
  | form hhead he =>
      rw [Value.weight_of_keyword hhead]
      exact he.weight_lt

theorem iterate_analyzeWith (f : Val → Analysis Code) {rounds : Nat} {e : Val}
    (h : e.weight ≤ rounds) :
    analyzeWith^[rounds] f e = analyze e := by
  induction rounds generalizing e with
  | zero => exact absurd (Derived.weight_pos e) (by omega)
  | succ rounds ih =>
      rw [Function.iterate_succ_apply', analyze_eq_analyzeWith]
      exact analyzeWith_congr fun e' he' => ih (by have := he'.weight_lt; omega)

/-- Everything that analysis asks for on behalf of an expression weighs less than the expression,
also where a derived form asks for what it stands for.  So nothing is asked for without end: a round
of analysis uses nothing but what it asks for, as many rounds as the expression weighs are
enough, and no other function solves the equation of a round. -/
theorem analysis_ends :
    (∀ e e', Demands e e' → e'.weight < e.weight) ∧
    WellFounded (fun e' e => Demands e e') ∧
    (∀ f g e, (∀ e', Demands e e' → f e' = g e') → analyzeWith f e = analyzeWith g e) ∧
    analyze = analyzeWith analyze ∧
    (∀ f e rounds, e.weight ≤ rounds → analyzeWith^[rounds] f e = analyze e) ∧
    ∀ f, f = analyzeWith f → f = analyze := by
  refine ⟨fun _ _ => Demands.weight_lt, ?_, fun _ _ _ => analyzeWith_congr,
    funext analyze_eq_analyzeWith, fun f _ _ => iterate_analyzeWith f, fun f hf => ?_⟩
  · exact Subrelation.wf Demands.weight_lt (measure Value.weight).wf
  · funext e
    rw [← iterate_analyzeWith f (Nat.le_refl e.weight), Function.iterate_fixed hf.symm]

def curriedChoice : Val :=
  .list 0 [.symbol ⟨"define"⟩, .list 1 [.list 2 [.symbol ⟨"f"⟩, .symbol ⟨"x"⟩], .symbol ⟨"y"⟩],
    .list 3 [.symbol ⟨"cond"⟩, .list 4 [.symbol ⟨"x"⟩, .symbol ⟨"y"⟩, .symbol ⟨"x"⟩]]]

def curriedChoiceOnce : Val :=
  .list 0 [.symbol ⟨"define"⟩, .list 2 [.symbol ⟨"f"⟩, .symbol ⟨"x"⟩],
    .list 0 [.symbol ⟨"lambda"⟩, .list 1 [.symbol ⟨"y"⟩],
      .list 3 [.symbol ⟨"cond"⟩, .list 4 [.symbol ⟨"x"⟩, .symbol ⟨"y"⟩, .symbol ⟨"x"⟩]]]]

theorem analysis_ends_curried :
    Demands curriedChoice curriedChoiceOnce ∧
    curriedChoice.text.length < curriedChoiceOnce.text.length ∧
    curriedChoiceOnce.weight < curriedChoice.weight ∧
    curriedChoice.weight = 35 ∧
    analyzeWith^[35] (fun _ => fail .emptySequence) curriedChoice = analyze curriedChoice := by
  have hdemands : Demands curriedChoice curriedChoiceOnce :=
    .form rfl .procedure
  have hweight : curriedChoice.weight = 35 := rfl
  rcases analysis_ends with ⟨hlt, _, _, _, hrounds, _⟩
  exact ⟨hdemands, by decide, hlt _ _ hdemands, hweight, hrounds _ _ 35 (le_of_eq hweight)⟩

end Code
end MiniLisp
