import MiniLisp.Proofs.Code.Identities
import MiniLisp.Proofs.Code.Phases
import MiniLisp.Proofs.Store.Steps

/-!
# Definitions stay in their scope

A definition binds a name in the frame that it is evaluated in.  The definitions in an operand, a
test or the value of another definition belong to the frame of the whole expression; those in the
body of a procedure or of a local scope belong to a frame that each call makes anew.

## Main statement

* `definitions_stay_in_scope`: evaluation adds names to no frame but the innermost one of its
  environment, and only those that the expression defines there; a call adds none to any frame.
-/

namespace MiniLisp

namespace Value

variable {β : Type}

def targetName? : Value β → Option Symbol
  | .atom (.symbol name) => some name
  | .list _ (target :: _) => targetName? target
  | _ => none

/-- Whether an expression has a definition of a name in the frame that it is evaluated in. -/
inductive Defines (x : Symbol) : Value β → Prop where
  | target {id head target rest} :
      Keyword.ofHead? head = some .define →
      target.targetName? = some x →
      Defines x (.list id (head :: target :: rest))
  | part {whole part} :
      part ∈ whole.partsHere →
      Defines x part →
      Defines x whole

end Value

namespace Code

/-- The pieces of code that run in the same environment as the code. -/
def parts : Code → List Code
  | .branch test consequent alternative => [test, consequent, alternative]
  | .andThen first second => [first, second]
  | .application operator operands => operator :: operands
  | .define _ value => [value]
  | .assign _ value => [value]
  | _ => []

inductive Defines (x : Symbol) : Code → Prop where
  | target {value} : Defines x (.define x value)
  | part {whole part} :
      part ∈ whole.parts →
      Defines x part →
      Defines x whole

theorem mem_parts_of_first? {code first : Code} (h : code.first? = some first) :
    first ∈ code.parts := by
  cases code <;> cases h <;> exact List.mem_cons_self

end Code

/-!
# Code defines what its expression defines
-/

namespace Value

variable {β : Type} {x : Symbol}

theorem targetName?_of_defined? {κ : Type} {lambda : List Symbol → κ → κ} {target : Value β}
    {inner code : κ} {name : Symbol}
    (h : defined? lambda target inner = some (name, code)) :
    target.targetName? = some name := by
  fun_induction defined? lambda target inner with
  | case1 =>
      cases h
      rfl
  | case2 _ _ _ _ _ _ ih => exact ih h
  | case3 => cases h
  | case4 => cases h

theorem lambda_of_defined? {κ : Type} {lambda : List Symbol → κ → κ} {target : Value β}
    {inner code : κ} {name : Symbol}
    (h : defined? lambda target inner = some (name, code)) :
    code = inner ∨ ∃ names body, code = lambda names body := by
  fun_induction defined? lambda target inner with
  | case1 =>
      cases h
      exact Or.inl rfl
  | case2 _ _ _ _ _ _ ih =>
      rcases ih h with rfl | hlambda
      · exact Or.inr ⟨_, _, rfl⟩
      · exact Or.inr hlambda
  | case3 => cases h
  | case4 => cases h

theorem Defines.of_clauseTest {test : Value β} (h : (Derived.clauseTest test).Defines x) :
    test.Defines x := by
  unfold Derived.clauseTest at h
  split at h
  · cases h with
    | part hmem => cases hmem
  · exact h

theorem defines_of_application {head : Value β} (hhead : Keyword.ofHead? head = none)
    {id : Identity} {rest : List (Value β)} {e : Value β} (he : e ∈ head :: rest)
    (h : e.Defines x) :
    (Value.list id (head :: rest)).Defines x := by
  apply Defines.part _ h
  rw [partsHere, hhead]
  exact he

theorem defines_of_form {head : Value β} {keyword : Keyword}
    (hhead : Keyword.ofHead? head = some keyword)
    {id : Identity} {rest : List (Value β)} {e : Value β} (he : e ∈ keyword.partsHere rest)
    (h : e.Defines x) :
    (Value.list id (head :: rest)).Defines x := by
  apply Defines.part _ h
  rw [partsHere, hhead]
  exact he

end Value

namespace Code

variable {x : Symbol}

theorem not_defines_literal (v : Val) : ¬ (Code.literal v).Defines x := by
  intro h
  cases h with
  | part hmem => cases hmem

theorem not_defines_reference (name : Symbol) : ¬ (Code.reference name).Defines x := by
  intro h
  cases h with
  | part hmem => cases hmem

theorem not_defines_lambda (names : List Symbol) (body : Code) :
    ¬ (Code.lambda names body).Defines x := by
  intro h
  cases h with
  | part hmem => cases hmem

theorem Defines.branch {test consequent alternative : Code}
    (h : (Code.branch test consequent alternative).Defines x) :
    test.Defines x ∨ consequent.Defines x ∨ alternative.Defines x := by
  cases h with
  | part hmem h =>
      simp only [parts, List.mem_cons, List.not_mem_nil, or_false] at hmem
      rcases hmem with rfl | rfl | rfl
      · exact Or.inl h
      · exact Or.inr (Or.inl h)
      · exact Or.inr (Or.inr h)

theorem Defines.application {operator : Code} {operands : List Code}
    (h : (Code.application operator operands).Defines x) :
    operator.Defines x ∨ ∃ c ∈ operands, c.Defines x := by
  cases h with
  | part hmem h =>
      rcases List.mem_cons.mp hmem with rfl | hmem
      · exact Or.inl h
      · exact Or.inr ⟨_, hmem, h⟩

theorem Defines.andThen {first second : Code} (h : (Code.andThen first second).Defines x) :
    first.Defines x ∨ second.Defines x := by
  cases h with
  | part hmem h =>
      simp only [parts, List.mem_cons, List.not_mem_nil, or_false] at hmem
      rcases hmem with rfl | rfl
      · exact Or.inl h
      · exact Or.inr h

theorem Defines.define {name : Symbol} {value : Code} (h : (Code.define name value).Defines x) :
    name = x ∨ value.Defines x := by
  cases h with
  | target => exact Or.inl rfl
  | part hmem h =>
      cases List.mem_singleton.mp hmem
      exact Or.inr h

theorem Defines.assign {name : Symbol} {value : Code} (h : (Code.assign name value).Defines x) :
    value.Defines x := by
  cases h with
  | part hmem h =>
      cases List.mem_singleton.mp hmem
      exact h

mutual

theorem Translates.defines {n m : Identity} {e : Val} {code : Code}
    (h : Translates n e code m) (hx : code.Defines x) :
    e.Defines x := by
  match h with
  | .constant _ => exact absurd hx (not_defines_literal _)
  | .reference => exact absurd hx (not_defines_reference _)
  | .application hhead hoperator hoperands =>
      rcases hx.application with hx | hx
      · exact Value.defines_of_application hhead List.mem_cons_self (hoperator.defines hx)
      · rcases hoperands.defines hx with ⟨e, he, hx⟩
        exact Value.defines_of_application hhead (List.mem_cons_of_mem _ he) hx
  | .form hhead hform =>
      rcases hform.defines hx with ⟨rfl, target, rest, rfl, htarget⟩ | ⟨e, he, hx⟩
      · exact .target hhead htarget
      · exact Value.defines_of_form hhead he hx

theorem TranslatesForm.defines {n m : Identity} {keyword : Keyword} {items : List Val}
    {code : Code}
    (h : TranslatesForm n keyword items code m) (hx : code.Defines x) :
    (keyword = .define ∧ ∃ target rest, items = target :: rest ∧
      target.targetName? = some x) ∨
      ∃ e ∈ keyword.partsHere items, e.Defines x := by
  match h with
  | .quote => exact absurd hx (not_defines_literal _)
  | .branchOnly htest hconsequent =>
      right
      rcases hx.branch with hx | hx | hx
      · exact ⟨_, .head _, htest.defines hx⟩
      · exact ⟨_, .tail _ (.head _), hconsequent.defines hx⟩
      · exact absurd hx (not_defines_literal _)
  | .branch htest hconsequent halternative =>
      right
      rcases hx.branch with hx | hx | hx
      · exact ⟨_, .head _, htest.defines hx⟩
      · exact ⟨_, .tail _ (.head _), hconsequent.defines hx⟩
      · exact ⟨_, .tail _ (.tail _ (.head _)), halternative.defines hx⟩
  | .sequence hbody => exact Or.inr (hbody.defines hx)
  | .define hvalue =>
      rcases hx.define with rfl | hx
      · exact Or.inl ⟨rfl, _, _, rfl, rfl⟩
      · exact Or.inr ⟨_, .head _, hvalue.defines hx⟩
  | .procedure hbody hdefined =>
      rcases hx.define with rfl | hx
      · exact Or.inl ⟨rfl, _, _, rfl, Value.targetName?_of_defined? hdefined⟩
      · rw [Value.defined?] at hdefined
        split at hdefined
        · rcases Value.lambda_of_defined? hdefined with rfl | ⟨names, body, rfl⟩
          · exact absurd hx (not_defines_lambda _ _)
          · exact absurd hx (not_defines_lambda _ _)
        · cases hdefined
  | .assign hvalue => exact Or.inr ⟨_, .head _, hvalue.defines hx.assign⟩
  | .lambda _ _ => exact absurd hx (not_defines_lambda _ _)
  | .cond hclauses => exact Or.inr (hclauses.defines hx)
  | @TranslatesForm.letForm _ _ _ _ bindings _ _ _ _ _ hparts _ hoperands =>
      rcases hx.application with hx | hx
      · exact absurd hx (not_defines_lambda _ _)
      · rcases hoperands.defines hx with ⟨e, he, hx⟩
        exact Or.inr ⟨e, Value.mem_partsHere_of_bindingParts hparts he _ _, hx⟩

theorem TranslatesEach.defines {n m : Identity} {es : List Val} {codes : List Code}
    (h : TranslatesEach n es codes m) (hx : ∃ c ∈ codes, c.Defines x) :
    ∃ e ∈ es, e.Defines x := by
  match h with
  | .nil =>
      rcases hx with ⟨c, hc, _⟩
      cases hc
  | .cons he hes =>
      rcases hx with ⟨c, hc, hx⟩
      rcases List.mem_cons.mp hc with hhead | hc
      · rw [hhead] at hx
        exact ⟨_, .head _, he.defines hx⟩
      · rcases hes.defines ⟨c, hc, hx⟩ with ⟨e, he, hx⟩
        exact ⟨e, .tail _ he, hx⟩

theorem TranslatesBody.defines {n m : Identity} {body : List Val} {code : Code}
    (h : TranslatesBody n body code m) (hx : code.Defines x) :
    ∃ e ∈ body, e.Defines x := by
  match h with
  | .last he => exact ⟨_, .head _, he.defines hx⟩
  | .cons he hes =>
      rcases hx.andThen with hx | hx
      · exact ⟨_, .head _, he.defines hx⟩
      · rcases hes.defines hx with ⟨e, he, hx⟩
        exact ⟨e, .tail _ he, hx⟩

theorem TranslatesClauses.defines {ending n m : Identity} {clauses : List Val} {code : Code}
    (h : TranslatesClauses ending n clauses code m) (hx : code.Defines x) :
    ∃ e ∈ Keyword.partsHere .cond clauses, e.Defines x := by
  match h with
  | .nil => exact absurd hx (not_defines_literal _)
  | .cons htest hbody hclauses =>
      rw [Keyword.partsHere, List.flatMap_cons]
      rcases hx.branch with hx | hx | hx
      · exact ⟨_, .head _, (htest.defines hx).of_clauseTest⟩
      · rcases hbody.defines hx with ⟨e, he, hx⟩
        exact ⟨e, List.mem_append_left _ (.tail _ he), hx⟩
      · rcases hclauses.defines hx with ⟨e, he, hx⟩
        exact ⟨e, List.mem_append_right _ he, hx⟩

end

end Code

/-!
# Where running code defines names
-/

namespace Store

variable {β : Type} {s t u : Store β}

/-- Where names may be defined from a store on: any in frames that are not there yet, and some in
the innermost frame of an environment. -/
def Scope (s : Store β) (env : Env) (names : Symbol → Prop) (f : FrameId) (x : Symbol) : Prop :=
  f = env.innermost ∧ names x ∨ s.frames.size ≤ f

theorem Scope.imp {env : Env} {names names' : Symbol → Prop} {f : FrameId} {x : Symbol}
    (hnames : ∀ x, names x → names' x) (hsize : s.frames.size ≤ t.frames.size)
    (h : t.Scope env names f x) :
    s.Scope env names' f x := by
  rcases h with ⟨hf, hx⟩ | hf
  · exact Or.inl ⟨hf, hnames x hx⟩
  · exact Or.inr (hsize.trans hf)

theorem Steps.scope_trans {env : Env} {names names' names'' : Symbol → Prop}
    (hst : s.Steps (s.Scope env names) t) (htu : t.Steps (t.Scope env names') u)
    (hnames : ∀ x, names x → names'' x) (hnames' : ∀ x, names' x → names'' x) :
    s.Steps (s.Scope env names'') u := by
  refine (hst.mono ?_).trans (htu.mono ?_)
  · intro f x
    exact Scope.imp hnames (Nat.le_refl _)
  · intro f x
    exact Scope.imp hnames' hst.size_le

theorem Steps.scope_of_new (h : s.Steps (fun f _ => s.frames.size ≤ f) t)
    (env : Env) (names : Symbol → Prop) :
    s.Steps (s.Scope env names) t :=
  h.mono fun _ _ => Or.inr

theorem Steps.of_extend {env : Env} {ps : List Symbol} {vs : List (Value β)}
    {names : Symbol → Prop}
    (h : (s.extend env ps vs).2.Steps
      ((s.extend env ps vs).2.Scope (s.extend env ps vs).1 names) t) :
    s.Steps (fun f _ => s.frames.size ≤ f) t := by
  refine Relation.ReflTransGen.head (Step.push (Frame.bindAll {} ps vs)) (h.mono ?_)
  rintro f x (⟨rfl, _⟩ | hf)
  · exact Nat.le_refl _
  · have hsize := s.size_push (Frame.bindAll {} ps vs)
    exact (Nat.le_succ _).trans (hsize.symm.trans_le hf)

end Store

theorem Primitive.Outcome.steps {β : Type} {p : Primitive} {vs : List (Value β)} {s t : Store β}
    {r : Except Fault (Value β)} {may : FrameId → Symbol → Prop}
    (h : p.Outcome vs s r t) :
    s.Steps may t := by
  cases h with
  | list => exact .single (.fresh (Nat.le_succ _))
  | print line => exact .single (.print line)
  | _ => exact .refl

mutual

theorem Code.Evaluates.steps {code : Code} {env : Env} {s t : Store Code} {r : Except Fault Val}
    (h : code.Evaluates env s r t) :
    s.Steps (s.Scope env fun x => code.Defines x) t := by
  match h with
  | .literal => exact .refl
  | .reference _ => exact .refl
  | .unbound _ => exact .refl
  | .consequent htest _ hconsequent =>
      exact htest.steps.scope_trans hconsequent.steps (fun _ => .part (.head _))
        (fun _ => .part (.tail _ (.head _)))
  | .alternative htest _ halternative =>
      exact htest.steps.scope_trans halternative.steps (fun _ => .part (.head _))
        (fun _ => .part (.tail _ (.tail _ (.head _))))
  | .andThen hfirst hsecond =>
      exact hfirst.steps.scope_trans hsecond.steps (fun _ => .part (.head _))
        (fun _ => .part (.tail _ (.head _)))
  | .application hoperator hoperands happlies =>
      refine Store.Steps.scope_trans (hoperator.steps.scope_trans hoperands.steps
        (fun _ => .part (.head _)) ?_) (happlies.steps.scope_of_new env fun _ => False)
        (fun _ => id) (fun _ => False.elim)
      rintro x ⟨c, hc, hx⟩
      exact .part (.tail _ hc) hx
  | .operandFault hoperator hoperands =>
      refine hoperator.steps.scope_trans hoperands.steps (fun _ => .part (.head _)) ?_
      rintro x ⟨c, hc, hx⟩
      exact .part (.tail _ hc) hx
  | .define hvalue =>
      refine (hvalue.steps.mono ?_).tail (.define (Or.inl ⟨rfl, .target⟩))
      intro f x
      exact Store.Scope.imp (fun _ => .part (.head _)) (Nat.le_refl _)
  | .assign hvalue hholder =>
      refine (hvalue.steps.mono ?_).tail (.assign hholder)
      intro f x
      exact Store.Scope.imp (fun _ => .part (.head _)) (Nat.le_refl _)
  | .assignUnbound hvalue _ =>
      refine hvalue.steps.mono ?_
      intro f x
      exact Store.Scope.imp (fun _ => .part (.head _)) (Nat.le_refl _)
  | .lambda => exact .single (.fresh (Nat.le_succ _))
  | .firstFault hfirst hfault =>
      refine hfault.steps.mono ?_
      intro f x
      exact Store.Scope.imp (fun _ => .part (Code.mem_parts_of_first? hfirst)) (Nat.le_refl _)

theorem Code.EvaluatesEach.steps {codes : List Code} {env : Env} {s t : Store Code}
    {r : Except Fault (List Val)}
    (h : Code.EvaluatesEach codes env s r t) :
    s.Steps (s.Scope env fun x => ∃ c ∈ codes, c.Defines x) t := by
  match h with
  | .nil => exact .refl
  | .cons hc hcs =>
      refine hc.steps.scope_trans hcs.steps (fun x hx => ⟨_, .head _, hx⟩) ?_
      rintro x ⟨c, hc, hx⟩
      exact ⟨c, .tail _ hc, hx⟩
  | .headFault hc =>
      refine hc.steps.mono ?_
      intro f x
      exact Store.Scope.imp (fun x hx => ⟨_, .head _, hx⟩) (Nat.le_refl _)
  | .tailFault hc hcs =>
      refine hc.steps.scope_trans hcs.steps (fun x hx => ⟨_, .head _, hx⟩) ?_
      rintro x ⟨c, hc, hx⟩
      exact ⟨c, .tail _ hc, hx⟩

theorem Value.Applies.steps {f : Val} {vs : List Val} {s t : Store Code} {r : Except Fault Val}
    (h : f.Applies vs s r t) :
    s.Steps (fun f _ => s.frames.size ≤ f) t := by
  match h with
  | .primitive hp => exact (Primitive.outcome_of_apply hp).steps
  | .procedure hbody => exact hbody.steps.of_extend
  | .notCallable _ _ => exact .refl

end

theorem steps_of_evaluate {depth : Nat} {e : Val} {env : Env} {s t : Store Code}
    {r : Except Fault Val}
    (h : evaluate depth e env s = some (r, t)) :
    s.Steps (s.Scope env fun x => e.Defines x) t := by
  rcases evaluate_cases h with ⟨fault, _, _, rfl⟩ | ⟨code, m, hanalyze, hevaluates⟩
  · exact .refl
  · have htranslates := Code.analyze_eq_ok_iff.mp hanalyze
    refine Relation.ReflTransGen.head (.fresh htranslates.le) (hevaluates.steps.mono ?_)
    intro f x
    exact Store.Scope.imp (fun _ => htranslates.defines) (Nat.le_refl _)

/-- However it ends, an evaluation keeps the names that each frame binds, and adds names to the
innermost frame of its environment only: targets of definitions in the expression that are evaluated
in that frame.  However it ends, a call keeps the names of each frame and adds none; nothing is done
to a frame but to assign names that it binds. -/
theorem definitions_stay_in_scope (s : Store Code) :
    (∀ depth e env r t, evaluate depth e env s = some (r, t) →
      s.Steps (s.Scope env fun x => e.Defines x) t ∧
      ∀ f < s.frames.size, ∃ added, (t.frame f).names = (s.frame f).names ++ added ∧
        ∀ x ∈ added, f = env.innermost ∧ e.Defines x) ∧
    (∀ depth (operator : Val) arguments r t, operator.apply depth arguments s = some (r, t) →
      s.Steps (fun f _ => s.frames.size ≤ f) t ∧
      ∀ f < s.frames.size, (t.frame f).names = (s.frame f).names) := by
  constructor
  · intro depth e env r t h
    have hsteps := steps_of_evaluate h
    refine ⟨hsteps, ?_⟩
    intro f hf
    rcases hsteps.names hf with ⟨added, hnames, hadded⟩
    refine ⟨added, hnames, ?_⟩
    intro x hx
    exact (hadded x hx).resolve_right (Nat.not_le_of_lt hf)
  · intro depth operator arguments r t h
    have hsteps := (Code.applies_of_apply h).steps
    exact ⟨hsteps, fun f hf => hsteps.names_eq hf fun _ => Nat.not_le_of_lt hf⟩

def operandDefinition : Val :=
  .list 0
    [.list 1 [.symbol ⟨"lambda"⟩, .list 2 [.symbol ⟨"x"⟩],
      .list 3 [.symbol ⟨"define"⟩, .symbol ⟨"z"⟩, .symbol ⟨"x"⟩]],
    .list 4 [.symbol ⟨"define"⟩, .symbol ⟨"y"⟩, .bool true]]

theorem not_defines_operandDefinition : ¬ operandDefinition.Defines ⟨"z"⟩ := by
  intro h
  cases h with
  | target hhead => cases hhead
  | part hmem h =>
      cases hmem with
      | head =>
          cases h with
          | target hhead => cases hhead
          | part hmem => cases hmem
      | tail _ hmem =>
          cases List.mem_singleton.mp hmem
          cases h with
          | target _ hname => exact absurd hname (by decide)
          | part hmem h =>
              cases List.mem_singleton.mp hmem
              cases h with
              | part hmem => cases hmem

def assigningProcedure : Val :=
  .procedure 0 [⟨"x"⟩]
    (.andThen (.define ⟨"z"⟩ (.reference ⟨"x"⟩)) (.assign ⟨"y"⟩ (.reference ⟨"x"⟩)))
    ⟨0, []⟩

theorem definitions_stay_in_scope_operand :
    (∃ r t, evaluate 9 operandDefinition ⟨0, []⟩ { frames := #[{}] } = some (r, t) ∧
      (t.frame 0).names = [⟨"y"⟩] ∧ (t.frame 1).names = [⟨"x"⟩, ⟨"z"⟩] ∧
      operandDefinition.Defines ⟨"y"⟩ ∧ ¬ operandDefinition.Defines ⟨"z"⟩) ∧
    ∃ r t, assigningProcedure.apply 9 [.bool false] { frames := #[⟨[(⟨"y"⟩, .bool true)]⟩] } =
        some (r, t) ∧
      (t.frame 1).names = [⟨"x"⟩, ⟨"z"⟩] ∧ (t.frame 0).names = [⟨"y"⟩] := by
  constructor
  · have hanalyze : Code.analyze operandDefinition 0 =
        .ok (.application (.lambda [⟨"x"⟩] (.define ⟨"z"⟩ (.reference ⟨"x"⟩)))
          [.define ⟨"y"⟩ (.literal (.bool true))], 0) :=
      Code.analyze_eq_ok_iff.mpr (.application rfl
        (.form rfl (.lambda rfl (.last (.form rfl (.define .reference)))))
        (.cons (.form rfl (.define (.constant rfl))) .nil))
    have hevaluate := Run.bind_of_ok (f := fun code => code.run 9 ⟨0, []⟩)
      (Run.analyze_of_ok (s := { frames := #[{}] }) hanalyze)
    refine ⟨_, _, hevaluate, rfl, rfl, ?_, not_defines_operandDefinition⟩
    rcases ((definitions_stay_in_scope { frames := #[{}] }).1 9 operandDefinition ⟨0, []⟩ _ _
      hevaluate).2 0 Nat.zero_lt_one with ⟨added, hnames, hadded⟩
    change [⟨"y"⟩] = added at hnames
    rw [← hnames] at hadded
    exact (hadded _ (.head _)).2
  · refine ⟨_, _, rfl, rfl, ?_⟩
    exact ((definitions_stay_in_scope { frames := #[⟨[(⟨"y"⟩, .bool true)]⟩] }).2 9
      assigningProcedure [.bool false] _ _ rfl).2 0 Nat.zero_lt_one

end MiniLisp
