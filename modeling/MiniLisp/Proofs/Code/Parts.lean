import MiniLisp.Proofs.Code.Translation

/-!
# The expressions in an expression

A form holds expressions in places that depend on its keyword.  Most are evaluated in the frame that
the form is evaluated in; the bodies of procedures and of local scopes get a frame of their own.
Quoted data, names and parameter lists are not expressions.

## Main statements

* `Code.Translates.of_standsIn`: if an expression becomes code, then so does every expression in it,
  be it ever run or not.
* `Code.TranslatesForm.fits`: only forms of the right shape become code.
-/

namespace MiniLisp

namespace Keyword

variable {β : Type}

/-- The expressions in a form that are evaluated in the frame that the form is evaluated in. -/
def partsHere : Keyword → List (Value β) → List (Value β)
  | .quote, _ => []
  | .branch, items => items
  | .sequence, items => items
  | .define, .list _ _ :: _ => []
  | .define, items => items.drop 1
  | .assign, items => items.drop 1
  | .lambda, _ => []
  | .cond, clauses => clauses.flatMap fun clause => clause.items?.getD []
  | .letForm, [] => []
  | .letForm, bindings :: _ =>
      (bindings.items?.getD []).flatMap fun binding => (binding.items?.getD []).drop 1

/-- The expressions in a form that are evaluated in a frame of their own. -/
def partsInside : Keyword → List (Value β) → List (Value β)
  | .define, .list _ _ :: body => body
  | .lambda, items => items.drop 1
  | .letForm, items => items.drop 1
  | _, _ => []

end Keyword

namespace Value

variable {β : Type}

def partsHere : Value β → List (Value β)
  | .list _ (head :: rest) =>
      match Keyword.ofHead? head with
      | some keyword => keyword.partsHere rest
      | none => head :: rest
  | _ => []

def partsInside : Value β → List (Value β)
  | .list _ (head :: rest) =>
      match Keyword.ofHead? head with
      | some keyword => keyword.partsInside rest
      | none => []
  | _ => []

/-- Whether an expression is evaluated when another one is, or may be when a procedure that comes of
it is applied. -/
inductive StandsIn (part : Value β) : Value β → Prop where
  | self : StandsIn part part
  | here {whole between} :
      between ∈ whole.partsHere →
      StandsIn part between →
      StandsIn part whole
  | inside {whole between} :
      between ∈ whole.partsInside →
      StandsIn part between →
      StandsIn part whole

inductive IsSignature : Value β → Prop where
  | name {id name parameters} :
      (∀ p ∈ parameters, p.symbol?.isSome) →
      IsSignature (.list id (.symbol name :: parameters))
  | nested {id target parameters} :
      IsSignature target →
      (∀ p ∈ parameters, p.symbol?.isSome) →
      IsSignature (.list id (target :: parameters))

end Value

/-- The right shapes of what follows a keyword; the expressions in it may be of any shape. -/
inductive Keyword.Fits {β : Type} : Keyword → List (Value β) → Prop where
  | quote {datum} : Keyword.Fits .quote [datum]
  | branchOnly {test consequent} : Keyword.Fits .branch [test, consequent]
  | branch {test consequent alternative} :
      Keyword.Fits .branch [test, consequent, alternative]
  | sequence {body} :
      body ≠ [] →
      Keyword.Fits .sequence body
  | define {name value} : Keyword.Fits .define [.symbol name, value]
  | procedure {signature body} :
      signature.IsSignature →
      body ≠ [] →
      Keyword.Fits .define (signature :: body)
  | assign {name value} : Keyword.Fits .assign [.symbol name, value]
  | lambda {id parameters body} :
      (∀ p ∈ parameters, p.symbol?.isSome) →
      body ≠ [] →
      Keyword.Fits .lambda (.list id parameters :: body)
  | cond {clauses} :
      (∀ clause ∈ clauses, ∃ id test body, clause = .list id (test :: body) ∧ body ≠ []) →
      Keyword.Fits .cond clauses
  | letForm {id bindings body} :
      (∀ binding ∈ bindings, ∃ id name value, binding = .list id [.symbol name, value]) →
      body ≠ [] →
      Keyword.Fits .letForm (.list id bindings :: body)

/-!
# What becomes code has the right shape
-/

namespace Value

variable {β : Type}

theorem isSome_symbol?_of_parameterNames {parameters : List (Value β)} {names : List Symbol}
    (h : Derived.parameterNames parameters = .ok names) :
    ∀ p ∈ parameters, p.symbol?.isSome := by
  induction parameters generalizing names with
  | nil =>
      intro p hp
      cases hp
  | cons p rest ih =>
      rw [Derived.parameterNames] at h
      cases hp : p.symbol? with
      | none =>
          rw [hp] at h
          cases h
      | some name =>
          rw [hp] at h
          cases hrest : Derived.parameterNames rest with
          | error cause =>
              rw [hrest] at h
              cases h
          | ok names' =>
              intro q hq
              cases hq with
              | head =>
                  rw [hp]
                  rfl
              | tail _ hq => exact ih hrest q hq

theorem isSignature_of_defined? {κ : Type} {lambda : List Symbol → κ → κ} {target : Value β}
    {inner code : κ} {name : Symbol}
    (h : defined? lambda target inner = some (name, code)) :
    (∃ name, target = .symbol name) ∨ target.IsSignature := by
  fun_induction defined? lambda target inner with
  | case1 name => exact Or.inl ⟨name, rfl⟩
  | case2 id target parameters inner names hnames ih =>
      have hparameters := isSome_symbol?_of_parameterNames hnames
      rcases ih h with ⟨name, rfl⟩ | htarget
      · exact Or.inr (.name hparameters)
      · exact Or.inr (.nested htarget hparameters)
  | case3 => cases h
  | case4 => cases h

theorem binding_of_bindingParts {bindings : List (Value β)} {names : List Symbol}
    {values : List (Value β)}
    (h : Derived.bindingParts bindings = .ok (names, values)) :
    ∀ binding ∈ bindings, ∃ id name value,
      binding = .list id [.symbol name, value] ∧ value ∈ values := by
  fun_induction Derived.bindingParts bindings generalizing names values with
  | case1 =>
      intro binding hbinding
      cases hbinding
  | case2 => cases h
  | case3 id name value rest names' values' hrest ih =>
      cases h
      intro binding hbinding
      cases hbinding with
      | head => exact ⟨id, name, value, rfl, List.mem_cons_self⟩
      | tail _ hbinding =>
          rcases ih hrest binding hbinding with ⟨id', name', value', rfl, hvalue⟩
          exact ⟨id', name', value', rfl, List.mem_cons_of_mem _ hvalue⟩
  | case4 => cases h

theorem mem_partsHere_of_bindingParts {bindings : List (Value β)} {names : List Symbol}
    {values : List (Value β)}
    (h : Derived.bindingParts bindings = .ok (names, values))
    {e : Value β} (he : e ∈ values) (id : Identity) (body : List (Value β)) :
    e ∈ Keyword.partsHere .letForm (.list id bindings :: body) := by
  rw [Keyword.partsHere]
  change e ∈ bindings.flatMap fun binding => (binding.items?.getD []).drop 1
  fun_induction Derived.bindingParts bindings generalizing names values with
  | case1 =>
      cases h
      cases he
  | case2 => cases h
  | case3 outer name value rest names' values' hrest ih =>
      cases h
      rw [List.flatMap_cons]
      cases he with
      | head => exact List.mem_append_left _ (.head _)
      | tail _ he => exact List.mem_append_right _ (ih hrest he)
  | case4 => cases h

end Value

namespace Code

theorem TranslatesBody.ne_nil {n m : Identity} {body : List Val} {code : Code}
    (h : TranslatesBody n body code m) :
    body ≠ [] := by
  cases h <;> exact List.cons_ne_nil _ _

theorem TranslatesClauses.clause {ending n m : Identity} {clauses : List Val} {code : Code}
    (h : TranslatesClauses ending n clauses code m) :
    ∀ clause ∈ clauses, ∃ id test body, clause = .list id (test :: body) ∧ body ≠ [] := by
  induction clauses generalizing n code with
  | nil =>
      intro clause hclause
      cases hclause
  | cons first rest ih =>
      cases h with
      | cons _ hbody hrest =>
          intro clause hclause
          cases hclause with
          | head => exact ⟨_, _, _, rfl, hbody.ne_nil⟩
          | tail _ hclause => exact ih hrest clause hclause

/-- Only forms of the right shape become code. -/
theorem TranslatesForm.fits {n m : Identity} {keyword : Keyword} {items : List Val} {code : Code}
    (h : TranslatesForm n keyword items code m) :
    keyword.Fits items := by
  cases h with
  | quote => exact .quote
  | branchOnly => exact .branchOnly
  | branch => exact .branch
  | sequence hbody => exact .sequence hbody.ne_nil
  | define => exact .define
  | procedure hbody hdefined =>
      rcases Value.isSignature_of_defined? hdefined with ⟨name, hname⟩ | hsignature
      · cases hname
      · exact .procedure hsignature hbody.ne_nil
  | assign => exact .assign
  | lambda hnames hbody =>
      exact .lambda (Value.isSome_symbol?_of_parameterNames hnames) hbody.ne_nil
  | cond hclauses => exact .cond hclauses.clause
  | letForm hparts hbody =>
      apply Keyword.Fits.letForm _ hbody.ne_nil
      intro binding hbinding
      rcases Value.binding_of_bindingParts hparts binding hbinding with ⟨id, name, value, heq, _⟩
      exact ⟨id, name, value, heq⟩

/-!
# What stands in an expression becomes code with it
-/

def Accepts (e : Val) : Prop :=
  ∃ n code m, Translates n e code m

theorem TranslatesEach.accepts {n m : Identity} {es : List Val} {codes : List Code}
    (h : TranslatesEach n es codes m) :
    ∀ e ∈ es, Accepts e := by
  induction es generalizing n codes with
  | nil =>
      intro e he
      cases he
  | cons first rest ih =>
      cases h with
      | cons hfirst hrest =>
          intro e he
          cases he with
          | head => exact ⟨_, _, _, hfirst⟩
          | tail _ he => exact ih hrest e he

theorem TranslatesBody.accepts {n m : Identity} {body : List Val} {code : Code}
    (h : TranslatesBody n body code m) :
    ∀ e ∈ body, Accepts e := by
  induction body generalizing n code with
  | nil =>
      intro e he
      cases he
  | cons first rest ih =>
      intro e he
      cases h with
      | last hfirst =>
          cases he with
          | head => exact ⟨_, _, _, hfirst⟩
          | tail _ he => cases he
      | cons hfirst hrest =>
          cases he with
          | head => exact ⟨_, _, _, hfirst⟩
          | tail _ he => exact ih hrest e he

theorem Translates.accepts_of_clauseTest {n m : Identity} {test : Val} {code : Code}
    (h : Translates n (Derived.clauseTest test) code m) :
    Accepts test := by
  unfold Derived.clauseTest at h
  split at h
  · cases test with
    | atom a =>
        cases a with
        | symbol name => exact ⟨0, _, _, .reference⟩
        | _ => exact ⟨0, _, _, .constant rfl⟩
    | list id items =>
        rename_i hsymbol
        cases hsymbol
    | _ => exact ⟨0, _, _, .constant rfl⟩
  · exact ⟨_, _, _, h⟩

theorem TranslatesClauses.accepts {ending n m : Identity} {clauses : List Val} {code : Code}
    (h : TranslatesClauses ending n clauses code m) :
    ∀ e ∈ Keyword.partsHere .cond clauses, Accepts e := by
  induction clauses generalizing n code with
  | nil =>
      intro e he
      cases he
  | cons first rest ih =>
      cases h with
      | cons htest hbody hrest =>
          intro e he
          rw [Keyword.partsHere, List.flatMap_cons, List.mem_append] at he
          cases he with
          | inl he =>
              cases he with
              | head => exact htest.accepts_of_clauseTest
              | tail _ he => exact hbody.accepts e he
          | inr he => exact ih hrest e he

theorem TranslatesForm.accepts_partsHere {n m : Identity} {keyword : Keyword} {items : List Val}
    {code : Code}
    (h : TranslatesForm n keyword items code m) :
    ∀ e ∈ keyword.partsHere items, Accepts e := by
  intro e he
  cases h with
  | quote => cases he
  | branchOnly htest hconsequent =>
      exact TranslatesEach.accepts (.cons htest (.cons hconsequent .nil)) e he
  | branch htest hconsequent halternative =>
      exact TranslatesEach.accepts (.cons htest (.cons hconsequent (.cons halternative .nil))) e he
  | sequence hbody => exact hbody.accepts e he
  | define hvalue => exact TranslatesEach.accepts (.cons hvalue .nil) e he
  | procedure => cases he
  | assign hvalue => exact TranslatesEach.accepts (.cons hvalue .nil) e he
  | lambda => cases he
  | cond hclauses => exact hclauses.accepts e he
  | letForm hparts _ hvalues =>
      rw [Keyword.partsHere, List.mem_flatMap] at he
      rcases he with ⟨binding, hbinding, he⟩
      rcases Value.binding_of_bindingParts hparts binding hbinding with ⟨_, _, value, rfl, hvalue⟩
      cases he with
      | head => exact hvalues.accepts _ hvalue
      | tail _ he => cases he

theorem TranslatesForm.accepts_partsInside {n m : Identity} {keyword : Keyword}
    {items : List Val} {code : Code}
    (h : TranslatesForm n keyword items code m) :
    ∀ e ∈ keyword.partsInside items, Accepts e := by
  intro e he
  cases h with
  | procedure hbody => exact hbody.accepts e he
  | lambda _ hbody => exact hbody.accepts e he
  | letForm _ hbody => exact hbody.accepts e he
  | _ => cases he

theorem Accepts.of_mem_parts {whole part : Val} (hwhole : Accepts whole)
    (h : part ∈ whole.partsHere ∨ part ∈ whole.partsInside) :
    Accepts part := by
  rcases hwhole with ⟨n, code, m, hwhole⟩
  cases hwhole with
  | constant hconstant =>
      cases whole with
      | list id items =>
          cases items with
          | nil => rcases h with h | h <;> cases h
          | cons head rest => cases hconstant
      | _ => rcases h with h | h <;> cases h
  | reference => rcases h with h | h <;> cases h
  | application hhead hoperator hoperands =>
      simp only [Value.partsHere, Value.partsInside, hhead] at h
      cases h with
      | inl h => exact TranslatesEach.accepts (.cons hoperator hoperands) part h
      | inr h => cases h
  | form hhead hform =>
      simp only [Value.partsHere, Value.partsInside, hhead] at h
      cases h with
      | inl h => exact hform.accepts_partsHere part h
      | inr h => exact hform.accepts_partsInside part h

/-- If an expression becomes code, then so does every expression in it. -/
theorem Accepts.of_standsIn {whole part : Val} (hwhole : Accepts whole)
    (h : part.StandsIn whole) :
    Accepts part := by
  induction h with
  | self => exact hwhole
  | here hmem _ ih => exact ih (hwhole.of_mem_parts (Or.inl hmem))
  | inside hmem _ ih => exact ih (hwhole.of_mem_parts (Or.inr hmem))

/-- A form in an expression that becomes code has the right shape. -/
theorem Accepts.fits {e : Val} (he : Accepts e)
    {id : Identity} {head : Val} {rest : List Val}
    (h : (Value.list id (head :: rest)).StandsIn e)
    {keyword : Keyword} (hhead : Keyword.ofHead? head = some keyword) :
    keyword.Fits rest := by
  rcases he.of_standsIn h with ⟨n, code, m, hform⟩
  cases hform with
  | constant hconstant => cases hconstant
  | application hnone =>
      rw [hhead] at hnone
      cases hnone
  | form hsome hform =>
      rw [hhead] at hsome
      cases hsome
      exact hform.fits

end Code
end MiniLisp
