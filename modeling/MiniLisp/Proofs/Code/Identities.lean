import MiniLisp.Proofs.Code.Translation

/-!
# How many identities analysis takes

One for each `cond` that is evaluated when the expression is, or when a procedure that it makes is
applied: all those that do not stand in quoted data.

## Main statement

* `Code.Translates.next_eq`: the next free identity is as many further on as the expression has
  `cond` forms.
-/

namespace MiniLisp

namespace Value

variable {β : Type}

mutual

/-- The number of `cond` forms in an expression. -/
def conds : Value β → Nat
  | .list _ items => listConds items
  | _ => 0

def listConds : List (Value β) → Nat
  | [] => 0
  | head :: rest =>
      match Keyword.ofHead? head with
      | some .quote => 0
      | some .define => bodyConds rest
      | some .lambda => bodyConds rest
      | some .cond => 1 + clausesConds rest
      | some .letForm => scopeConds rest
      | some _ => itemsConds rest
      | none => conds head + itemsConds rest

def itemsConds : List (Value β) → Nat
  | [] => 0
  | e :: es => conds e + itemsConds es

def bodyConds : List (Value β) → Nat
  | [] => 0
  | _ :: body => itemsConds body

def clausesConds : List (Value β) → Nat
  | [] => 0
  | .list _ items :: rest => itemsConds items + clausesConds rest
  | _ :: rest => clausesConds rest

def scopeConds : List (Value β) → Nat
  | .list _ bindings :: body => itemsConds body + clausesConds bindings
  | _ => 0

end

def formConds (keyword : Keyword) (items : List (Value β)) : Nat :=
  match keyword with
  | .quote => 0
  | .define => bodyConds items
  | .lambda => bodyConds items
  | .cond => 1 + clausesConds items
  | .letForm => scopeConds items
  | _ => itemsConds items

theorem conds_of_keyword {head : Value β} {keyword : Keyword}
    (h : Keyword.ofHead? head = some keyword) (id : Identity) (rest : List (Value β)) :
    conds (.list id (head :: rest)) = formConds keyword rest := by
  cases keyword <;> simp only [conds, listConds, h, formConds]

theorem conds_of_application {head : Value β}
    (h : Keyword.ofHead? head = none) (id : Identity) (rest : List (Value β)) :
    conds (.list id (head :: rest)) = conds head + itemsConds rest := by
  simp only [conds, listConds, h]

theorem conds_of_isConstant {e : Value β}
    (h : e.isConstant = true) :
    conds e = 0 := by
  cases e with
  | list id items =>
      cases items with
      | nil => simp only [conds, listConds]
      | cons head rest => cases h
  | _ => simp only [conds]

theorem conds_clauseTest (test : Value β) :
    conds (Derived.clauseTest test) = conds test := by
  unfold Derived.clauseTest
  split
  · rename_i h
    cases test with
    | list id items => cases h
    | _ => simp only [conds]
  · rfl

theorem clausesConds_of_bindingParts {bindings : List (Value β)} {names : List Symbol}
    {values : List (Value β)}
    (h : Derived.bindingParts bindings = .ok (names, values)) :
    clausesConds bindings = itemsConds values := by
  fun_induction Derived.bindingParts bindings generalizing names values with
  | case1 =>
      cases h
      simp only [clausesConds, itemsConds]
  | case2 => cases h
  | case3 _ name value rest names' values' hrest ih =>
      cases h
      simp only [clausesConds, itemsConds, conds, ih hrest]
      omega
  | case4 => cases h

end Value

namespace Code

open Value

mutual

theorem Translates.next_eq {n m : Nat} {e : Val} {code : Code}
    (h : Translates n e code m) :
    m = n + e.conds := by
  match h with
  | .constant hconstant => rw [conds_of_isConstant hconstant, Nat.add_zero]
  | .reference => simp only [conds, Nat.add_zero]
  | .application hhead hoperator hoperands =>
      rw [conds_of_application hhead, hoperands.next_eq, hoperator.next_eq, Nat.add_assoc]
  | .form hhead hform =>
      rw [conds_of_keyword hhead]
      exact hform.next_eq

theorem TranslatesForm.next_eq {n m : Nat} {keyword : Keyword} {items : List Val}
    {code : Code}
    (h : TranslatesForm n keyword items code m) :
    m = n + formConds keyword items := by
  match h with
  | .quote => rfl
  | .branchOnly htest hconsequent =>
      rw [hconsequent.next_eq, htest.next_eq]
      simp only [formConds, itemsConds]
      omega
  | .branch htest hconsequent halternative =>
      rw [halternative.next_eq, hconsequent.next_eq, htest.next_eq]
      simp only [formConds, itemsConds]
      omega
  | .sequence hbody => exact hbody.next_eq
  | .define hvalue =>
      rw [hvalue.next_eq]
      simp only [formConds, bodyConds, itemsConds, Nat.add_zero]
  | .procedure hbody _ => exact hbody.next_eq
  | .assign hvalue =>
      rw [hvalue.next_eq]
      simp only [formConds, itemsConds, conds]
      omega
  | .lambda _ hbody => exact hbody.next_eq
  | .cond hclauses =>
      rw [hclauses.next_eq]
      simp only [formConds]
      omega
  | .letForm hparts hbody hoperands =>
      rw [hoperands.next_eq, hbody.next_eq]
      simp only [formConds, scopeConds, clausesConds_of_bindingParts hparts]
      omega

theorem TranslatesEach.next_eq {n m : Nat} {es : List Val} {codes : List Code}
    (h : TranslatesEach n es codes m) :
    m = n + itemsConds es := by
  match h with
  | .nil => simp only [itemsConds, Nat.add_zero]
  | .cons he hes =>
      rw [hes.next_eq, he.next_eq]
      simp only [itemsConds]
      omega

theorem TranslatesBody.next_eq {n m : Nat} {body : List Val} {code : Code}
    (h : TranslatesBody n body code m) :
    m = n + itemsConds body := by
  match h with
  | .last he =>
      rw [he.next_eq]
      simp only [itemsConds, Nat.add_zero]
  | .cons he hes =>
      rw [hes.next_eq, he.next_eq]
      simp only [itemsConds]
      omega

theorem TranslatesClauses.next_eq {ending n m : Nat} {clauses : List Val} {code : Code}
    (h : TranslatesClauses ending n clauses code m) :
    m = n + clausesConds clauses := by
  match h with
  | .nil => simp only [clausesConds, Nat.add_zero]
  | .cons htest hbody hclauses =>
      rw [hclauses.next_eq, hbody.next_eq, htest.next_eq, conds_clauseTest]
      simp only [clausesConds, itemsConds]
      omega

end

theorem Translates.le {n m : Identity} {e : Val} {code : Code}
    (h : Translates n e code m) :
    n ≤ m := by
  rw [h.next_eq]
  exact Nat.le_add_right n _

theorem TranslatesEach.le {n m : Identity} {es : List Val} {codes : List Code}
    (h : TranslatesEach n es codes m) :
    n ≤ m := by
  rw [h.next_eq]
  exact Nat.le_add_right n _

theorem TranslatesBody.le {n m : Identity} {body : List Val} {code : Code}
    (h : TranslatesBody n body code m) :
    n ≤ m := by
  rw [h.next_eq]
  exact Nat.le_add_right n _

theorem TranslatesClauses.le {ending n m : Identity} {clauses : List Val} {code : Code}
    (h : TranslatesClauses ending n clauses code m) :
    n ≤ m := by
  rw [h.next_eq]
  exact Nat.le_add_right n _

end Code
end MiniLisp
