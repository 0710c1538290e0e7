import MiniLisp.Code.Derived

/-!
# The weight of an expression

A derived form stands for an expression that may be larger and may hold keyword forms again.  The
weight of an expression is chosen so that every expression that has to be looked at for its sake
weighs less, those that derived forms stand for included.

## Main statements

* `weight_procedureDefinition_lt`, `weight_conditional_lt` and `weight_localScope_lt`: what a
  derived form stands for weighs less than the form.
-/

namespace MiniLisp
namespace Value

variable {β : Type}

mutual

def weight : Value β → Nat
  | .list _ items => 1 + listWeight items
  | _ => 1

def listWeight : List (Value β) → Nat
  | [] => 0
  | head :: rest =>
      match Keyword.ofHead? head with
      | some .define => definitionWeight rest
      | some .cond => 2 + clausesWeight rest
      | some .letForm => scopeWeight rest
      | some _ => 1 + itemsWeight rest
      | none => weight head + itemsWeight rest

def itemsWeight : List (Value β) → Nat
  | [] => 0
  | e :: rest => 1 + weight e + itemsWeight rest

def definitionWeight : List (Value β) → Nat
  | [] => 0
  | target :: body => 1 + targetWeight target + itemsWeight body

/-- The weight of the target of a definition: each signature pays for a `lambda`. -/
def targetWeight : Value β → Nat
  | .list _ (name :: parameters) => 7 + targetWeight name + listWeight parameters
  | _ => 1

def clausesWeight : List (Value β) → Nat
  | [] => 0
  | .list _ (test :: body) :: rest => 7 + weight test + itemsWeight body + clausesWeight rest
  | _ :: rest => clausesWeight rest

def scopeWeight : List (Value β) → Nat
  | .list _ bindings :: body => 8 + bindingsWeight bindings + itemsWeight body
  | _ => 0

def bindingsWeight : List (Value β) → Nat
  | [] => 0
  | .list _ [_, value] :: rest => 3 + weight value + bindingsWeight rest
  | _ :: rest => bindingsWeight rest

end

def formWeight (keyword : Keyword) (items : List (Value β)) : Nat :=
  match keyword with
  | .define => definitionWeight items
  | .cond => 2 + clausesWeight items
  | .letForm => scopeWeight items
  | _ => 1 + itemsWeight items

theorem weight_of_keyword {id : Identity} {head : Value β} {rest : List (Value β)}
    {keyword : Keyword} (h : Keyword.ofHead? head = some keyword) :
    weight (.list id (head :: rest)) = 1 + formWeight keyword rest := by
  cases keyword <;> simp [weight, listWeight, h, formWeight]

theorem weight_of_application {id : Identity} {head : Value β} {rest : List (Value β)}
    (h : Keyword.ofHead? head = none) :
    weight (.list id (head :: rest)) = 1 + (weight head + itemsWeight rest) := by
  simp [weight, listWeight, h]

end Value

namespace Derived

open Value

variable {β : Type}

@[simp] theorem ofHead?_symbol (k : Keyword) :
    Keyword.ofHead? (.symbol k.symbol : Value β) = some k := by
  cases k <;> rfl

@[simp] theorem ofHead?_list (id : Identity) (items : List (Value β)) :
    Keyword.ofHead? (.list id items) = none :=
  rfl

theorem weight_pos (v : Value β) : 0 < weight v := by
  cases v <;> simp only [weight] <;> omega

/-- A procedure's definition weighs more than the definition by `lambda` that it stands for. -/
theorem weight_procedureDefinition_lt (id signature : Identity) (name : Value β)
    (parameters body : List (Value β)) :
    weight (procedureDefinition id signature name parameters body) <
      definitionWeight (.list signature (name :: parameters) :: body) := by
  simp only [procedureDefinition, form, weight, listWeight, ofHead?_symbol, definitionWeight,
    targetWeight, itemsWeight]
  omega

theorem weight_clauseTest_le (test : Value β) : weight (clauseTest test) ≤ weight test := by
  unfold clauseTest
  split
  · exact weight_pos test
  · exact Nat.le_refl _

theorem weight_clause_le {id : Identity} {c test consequent : Value β}
    (h : clause id c = .ok (test, consequent)) (rest : List (Value β)) :
    weight test + weight consequent + 5 + clausesWeight rest ≤ clausesWeight (c :: rest) := by
  unfold clause at h
  split at h
  · simp at h
  · rename_i t single
    simp only [Except.ok.injEq, Prod.mk.injEq] at h
    obtain ⟨rfl, rfl⟩ := h
    have := weight_clauseTest_le t
    simp only [clausesWeight, itemsWeight]
    omega
  · rename_i t body _ _
    simp only [Except.ok.injEq, Prod.mk.injEq] at h
    obtain ⟨rfl, rfl⟩ := h
    have := weight_clauseTest_le t
    simp only [clausesWeight, form, weight, listWeight, ofHead?_symbol]
    omega
  · simp at h

theorem weight_conditional_le {id : Identity} {ending e : Value β} {clauses : List (Value β)}
    (h : conditional id ending clauses = .ok e) :
    weight e ≤ weight ending + clausesWeight clauses := by
  induction clauses generalizing e with
  | nil =>
      simp only [conditional, Except.ok.injEq] at h
      subst h
      exact Nat.le_add_right _ _
  | cons c rest ih =>
      simp only [conditional] at h
      split at h
      · simp at h
      · rename_i alternative hrest
        split at h
        · simp at h
        · rename_i test consequent hclause
          simp only [Except.ok.injEq] at h
          subst h
          have hrest := ih hrest
          have hclause := weight_clause_le hclause rest
          simp only [form, weight, listWeight, ofHead?_symbol, itemsWeight]
          omega

/-- A conditional weighs more than the nested branches that it stands for. -/
theorem weight_conditional_lt {id ending : Identity} {e : Value β} {clauses : List (Value β)}
    (h : conditional id (.list ending []) clauses = .ok e) :
    weight e < 2 + clausesWeight clauses := by
  have := weight_conditional_le h
  simp only [weight, listWeight] at this
  omega

theorem itemsWeight_symbols (names : List Symbol) :
    itemsWeight (names.map (Value.symbol (β := β))) = 2 * names.length := by
  induction names with
  | nil => rfl
  | cons name rest ih =>
      simp only [List.map_cons, itemsWeight, weight, ih, List.length_cons]
      omega

theorem listWeight_symbols_le (names : List Symbol) :
    listWeight (names.map (Value.symbol (β := β))) ≤ 2 * names.length + 2 := by
  cases names with
  | nil => simp [listWeight]
  | cons name rest =>
      have hitems := itemsWeight_symbols (β := β) rest
      simp only [List.map_cons, listWeight, List.length_cons]
      split
      · cases rest with
        | nil => simp [definitionWeight]
        | cons target body =>
            simp only [List.map_cons, itemsWeight, weight, List.length_cons] at hitems
            simp only [List.map_cons, definitionWeight, targetWeight, List.length_cons]
            omega
      · have hclauses : clausesWeight (rest.map (Value.symbol (β := β))) = 0 := by
          clear hitems
          induction rest with
          | nil => rfl
          | cons r rest ih => simpa [clausesWeight] using ih
        omega
      · cases rest <;> simp [scopeWeight]
      · omega
      · simp only [weight]
        omega

theorem bindingParts_weight {bindings : List (Value β)} {names : List Symbol}
    {values : List (Value β)} (h : bindingParts bindings = .ok (names, values)) :
    2 * names.length + itemsWeight values = bindingsWeight bindings := by
  fun_induction bindingParts bindings generalizing names values with
  | case1 =>
      simp only [Except.ok.injEq, Prod.mk.injEq] at h
      obtain ⟨rfl, rfl⟩ := h
      simp [itemsWeight, bindingsWeight]
  | case2 => simp at h
  | case3 _ name value rest names' values' hrest ih =>
      simp only [Except.ok.injEq, Prod.mk.injEq] at h
      obtain ⟨rfl, rfl⟩ := h
      have := ih hrest
      simp only [List.length_cons, itemsWeight, bindingsWeight]
      omega
  | case4 => simp at h

/-- A local scope weighs more than the application that it stands for. -/
theorem weight_localScope_lt {id scope : Identity} {bindings : List (Value β)}
    {names : List Symbol} {values : List (Value β)} (body : List (Value β))
    (h : bindingParts bindings = .ok (names, values)) :
    weight (localScope id names values body) < scopeWeight (.list scope bindings :: body) := by
  have hbindings := bindingParts_weight h
  have hnames := listWeight_symbols_le (β := β) names
  simp only [localScope, form, weight, listWeight, ofHead?_symbol, ofHead?_list, scopeWeight,
    itemsWeight]
  omega

end Derived
end MiniLisp
