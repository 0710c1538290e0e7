import MiniLisp.Proofs.Code.Definitions

/-!
# Occurrence

A value occurs in the lists that it is an item of, in the procedures whose body has it as a literal,
and in all code that these stand in.  Analysis takes the literals of code from the expression; it
makes only the value of a missing branch, the truth value that `else` stands for and the empty list
at the end of a `cond`, which gets an identity of its own.

## Main statements

* `Code.Translates.occurs`: what occurs in code occurs in its expression, unless analysis made it.
* `Value.Throughout`: a property of all values of a kind that occur in a value; what its parts have
  to have.
-/

namespace MiniLisp

mutual

inductive Value.OccursIn (x : Val) : Val → Prop where
  | self : Value.OccursIn x x
  | item {id items v} :
      v ∈ items →
      Value.OccursIn x v →
      Value.OccursIn x (.list id items)
  | body {id parameters body env} :
      Value.OccursInCode x body →
      Value.OccursIn x (.procedure id parameters body env)

inductive Value.OccursInCode (x : Val) : Code → Prop where
  | literal {v} :
      Value.OccursIn x v →
      Value.OccursInCode x (.literal v)
  | part {code part} :
      part ∈ code.parts →
      Value.OccursInCode x part →
      Value.OccursInCode x code
  | lambda {parameters body} :
      Value.OccursInCode x body →
      Value.OccursInCode x (.lambda parameters body)

end

/-- The values that analysis makes while it gives out the identities from `n` on and before `m`. -/
inductive Value.IsMade (n m : Identity) : Val → Prop where
  | undefined : Value.IsMade n m .undefined
  | true : Value.IsMade n m (.bool true)
  | nil {id} : n ≤ id → id < m → Value.IsMade n m (.list id [])

namespace Value

variable {x v : Val}

theorem OccursIn.eq_or_item {id : Identity} {items : List Val} (h : x.OccursIn (.list id items)) :
    x = .list id items ∨ ∃ v ∈ items, x.OccursIn v := by
  cases h with
  | self => exact .inl rfl
  | item hmem h => exact .inr ⟨_, hmem, h⟩

theorem OccursIn.eq_or_body {id : Identity} {parameters : List Symbol} {body : Code} {env : Env}
    (h : x.OccursIn (.procedure id parameters body env)) :
    x = .procedure id parameters body env ∨ x.OccursInCode body := by
  cases h with
  | self => exact .inl rfl
  | body h => exact .inr h

theorem occursIn_atom_iff {a : Atom} : x.OccursIn (.atom a) ↔ x = .atom a := by
  constructor
  · intro h
    cases h
    rfl
  · rintro rfl
    exact .self

theorem occursIn_primitive_iff {p : Primitive} : x.OccursIn (.primitive p) ↔ x = .primitive p := by
  constructor
  · intro h
    cases h
    rfl
  · rintro rfl
    exact .self

theorem occursIn_undefined_iff : x.OccursIn .undefined ↔ x = .undefined := by
  constructor
  · intro h
    cases h
    rfl
  · rintro rfl
    exact .self

theorem OccursInCode.of_literal (h : x.OccursInCode (.literal v)) : x.OccursIn v := by
  cases h with
  | literal h => exact h
  | part hmem => cases hmem

theorem not_occursInCode_reference (name : Symbol) : ¬ x.OccursInCode (.reference name) := by
  intro h
  cases h with
  | part hmem => cases hmem

theorem OccursInCode.of_lambda {parameters : List Symbol} {body : Code}
    (h : x.OccursInCode (.lambda parameters body)) :
    x.OccursInCode body := by
  cases h with
  | lambda h => exact h
  | part hmem => cases hmem

theorem OccursInCode.exists_part {code : Code} (h : x.OccursInCode code)
    (hliteral : ∀ v, code ≠ .literal v)
    (hlambda : ∀ parameters body, code ≠ .lambda parameters body) :
    ∃ part ∈ code.parts, x.OccursInCode part := by
  cases h with
  | literal => exact (hliteral _ rfl).elim
  | part hmem h => exact ⟨_, hmem, h⟩
  | lambda => exact (hlambda _ _ rfl).elim

theorem OccursInCode.of_defined? {target : Val} {inner code : Code} {name : Symbol}
    (h : Value.defined? Code.lambda target inner = some (name, code))
    (hcode : x.OccursInCode code) :
    x.OccursInCode inner := by
  fun_induction Value.defined? Code.lambda target inner with
  | case1 =>
      cases h
      exact hcode
  | case2 _ _ _ _ _ _ ih => exact (ih h).of_lambda
  | case3 => cases h
  | case4 => cases h

variable {n n' m m' : Identity}

theorem IsMade.mono (h : x.IsMade n m) (hn : n' ≤ n) (hm : m ≤ m') : x.IsMade n' m' := by
  cases h with
  | undefined => exact .undefined
  | true => exact .true
  | nil hid hid' => exact .nil (hn.trans hid) (hid'.trans_le hm)

def OccursOrMade (n m : Identity) (x e : Val) : Prop :=
  x.OccursIn e ∨ x.IsMade n m

def OccursInEach (n m : Identity) (x : Val) (es : List Val) : Prop :=
  (∃ e ∈ es, x.OccursIn e) ∨ x.IsMade n m

theorem OccursOrMade.mono {e : Val} (h : OccursOrMade n m x e) (hn : n' ≤ n) (hm : m ≤ m') :
    OccursOrMade n' m' x e :=
  h.imp_right fun hmade => hmade.mono hn hm

theorem OccursInEach.mono {es : List Val} (h : OccursInEach n m x es) (hn : n' ≤ n)
    (hm : m ≤ m') :
    OccursInEach n' m' x es :=
  h.imp_right fun hmade => hmade.mono hn hm

theorem OccursInEach.tail {es : List Val} (h : OccursInEach n m x es) (e : Val) :
    OccursInEach n m x (e :: es) := by
  rcases h with ⟨e', he', hx⟩ | hmade
  · exact .inl ⟨e', .tail _ he', hx⟩
  · exact .inr hmade

theorem OccursInEach.list {es : List Val} (h : OccursInEach n m x es) (id : Identity) :
    OccursOrMade n m x (.list id es) := by
  rcases h with ⟨e, he, hx⟩ | hmade
  · exact .inl (.item he hx)
  · exact .inr hmade

theorem OccursOrMade.head {e : Val} (h : OccursOrMade n m x e) (es : List Val) :
    OccursInEach n m x (e :: es) :=
  h.imp_left fun hx => ⟨e, .head _, hx⟩

theorem OccursOrMade.of_clauseTest {test : Val}
    (h : OccursOrMade n m x (Derived.clauseTest test)) :
    OccursOrMade n m x test := by
  unfold Derived.clauseTest at h
  split at h
  · rcases h with hx | hmade
    · rw [occursIn_atom_iff.mp hx]
      exact .inr .true
    · exact .inr hmade
  · exact h

theorem occursInEach_of_bindingParts {bindings : List Val} {names : List Symbol}
    {values : List Val} (hparts : Derived.bindingParts bindings = .ok (names, values))
    (h : OccursInEach n m x values) :
    OccursInEach n m x bindings := by
  rcases h with ⟨v, hv, hx⟩ | hmade
  · have hpart := mem_partsHere_of_bindingParts hparts hv 0 []
    rw [Keyword.partsHere] at hpart
    rcases List.mem_flatMap.mp hpart with ⟨binding, hbinding, hvalue⟩
    cases binding with
    | list id items => exact .inl ⟨_, hbinding, .item (List.mem_of_mem_drop hvalue) hx⟩
    | _ => cases hvalue
  · exact .inr hmade

end Value

/-!
# What occurs in code occurs in its expression
-/

namespace Code

variable {x : Val}

open Value (OccursOrMade OccursInEach)

mutual

/-- What occurs in code occurs in its expression, unless analysis made it. -/
theorem Translates.occurs {n m : Identity} {e : Val} {code : Code}
    (h : Translates n e code m) (hx : x.OccursInCode code) :
    OccursOrMade n m x e := by
  match h with
  | .constant _ => exact .inl hx.of_literal
  | .reference => exact absurd hx (Value.not_occursInCode_reference _)
  | .application _ hoperator hoperands =>
      rcases hx.exists_part nofun nofun with ⟨part, hmem, hx⟩
      cases hmem with
      | head =>
          have hhead := (hoperator.occurs hx).mono (Nat.le_refl _) hoperands.le
          exact (hhead.head _).list _
      | tail _ hmem =>
          have hrest := (hoperands.occurs hmem hx).mono hoperator.le (Nat.le_refl _)
          exact (hrest.tail _).list _
  | .form _ hform => exact ((hform.occurs hx).tail _).list _

theorem TranslatesForm.occurs {n m : Identity} {keyword : Keyword} {items : List Val}
    {code : Code}
    (h : TranslatesForm n keyword items code m) (hx : x.OccursInCode code) :
    OccursInEach n m x items := by
  match h with
  | .quote => exact OccursOrMade.head (.inl hx.of_literal) _
  | .branchOnly htest hconsequent =>
      rcases hx.exists_part nofun nofun with ⟨part, hmem, hx⟩
      rcases hmem with _ | ⟨_, _ | ⟨_, _ | ⟨_, hmem⟩⟩⟩
      · exact ((htest.occurs hx).mono (Nat.le_refl _) hconsequent.le).head _
      · exact (((hconsequent.occurs hx).mono htest.le (Nat.le_refl _)).head _).tail _
      · rw [Value.occursIn_undefined_iff.mp hx.of_literal]
        exact .inr .undefined
      · cases hmem
  | .branch htest hconsequent halternative =>
      rcases hx.exists_part nofun nofun with ⟨part, hmem, hx⟩
      rcases hmem with _ | ⟨_, _ | ⟨_, _ | ⟨_, hmem⟩⟩⟩
      · have hle := hconsequent.le.trans halternative.le
        exact ((htest.occurs hx).mono (Nat.le_refl _) hle).head _
      · exact (((hconsequent.occurs hx).mono htest.le halternative.le).head _).tail _
      · have hle := htest.le.trans hconsequent.le
        exact ((((halternative.occurs hx).mono hle (Nat.le_refl _)).head _).tail _).tail _
      · cases hmem
  | .sequence hbody => exact hbody.occurs hx
  | .define hvalue =>
      rcases hx.exists_part nofun nofun with ⟨part, hmem, hx⟩
      rw [List.mem_singleton.mp hmem] at hx
      exact ((hvalue.occurs hx).head _).tail _
  | .procedure hbody hdefined =>
      rcases hx.exists_part nofun nofun with ⟨part, hmem, hx⟩
      rw [List.mem_singleton.mp hmem] at hx
      exact (hbody.occurs (hx.of_defined? hdefined)).tail _
  | .assign hvalue =>
      rcases hx.exists_part nofun nofun with ⟨part, hmem, hx⟩
      rw [List.mem_singleton.mp hmem] at hx
      exact ((hvalue.occurs hx).head _).tail _
  | .lambda _ hbody => exact (hbody.occurs hx.of_lambda).tail _
  | .cond hclauses => exact hclauses.occurs (Nat.le_refl _) (Nat.lt_succ_self _) hx
  | .letForm hparts hbody hoperands =>
      rcases hx.exists_part nofun nofun with ⟨part, hmem, hx⟩
      cases hmem with
      | head => exact ((hbody.occurs hx.of_lambda).mono (Nat.le_refl _) hoperands.le).tail _
      | tail _ hmem =>
          have hvalues := (hoperands.occurs hmem hx).mono hbody.le (Nat.le_refl _)
          exact ((Value.occursInEach_of_bindingParts hparts hvalues).list _).head _

theorem TranslatesEach.occurs {n m : Identity} {es : List Val} {codes : List Code}
    (h : TranslatesEach n es codes m) {c : Code} (hc : c ∈ codes) (hx : x.OccursInCode c) :
    OccursInEach n m x es := by
  match h with
  | .nil => cases hc
  | .cons he hes =>
      rcases List.mem_cons.mp hc with hhead | hc
      · rw [hhead] at hx
        exact ((he.occurs hx).mono (Nat.le_refl _) hes.le).head _
      · exact ((hes.occurs hc hx).mono he.le (Nat.le_refl _)).tail _

theorem TranslatesBody.occurs {n m : Identity} {body : List Val} {code : Code}
    (h : TranslatesBody n body code m) (hx : x.OccursInCode code) :
    OccursInEach n m x body := by
  match h with
  | .last he => exact (he.occurs hx).head _
  | .cons he hes =>
      rcases hx.exists_part nofun nofun with ⟨part, hmem, hx⟩
      rcases hmem with _ | ⟨_, _ | ⟨_, hmem⟩⟩
      · exact ((he.occurs hx).mono (Nat.le_refl _) hes.le).head _
      · exact ((hes.occurs hx).mono he.le (Nat.le_refl _)).tail _
      · cases hmem

/-- The empty list at the end has an identity that was given out before. -/
theorem TranslatesClauses.occurs {ending n m first : Identity} {clauses : List Val} {code : Code}
    (h : TranslatesClauses ending n clauses code m) (hfirst : first ≤ ending) (hending : ending < n)
    (hx : x.OccursInCode code) :
    OccursInEach first m x clauses := by
  match h with
  | .nil =>
      rcases hx.of_literal.eq_or_item with rfl | ⟨v, hv, _⟩
      · exact .inr (.nil hfirst hending)
      · cases hv
  | .cons htest hbody hclauses =>
      have hle := hfirst.trans hending.le
      rcases hx.exists_part nofun nofun with ⟨part, hmem, hx⟩
      rcases hmem with _ | ⟨_, _ | ⟨_, _ | ⟨_, hmem⟩⟩⟩
      · have htest := (htest.occurs hx).of_clauseTest.mono hle (hbody.le.trans hclauses.le)
        exact ((htest.head _).list _).head _
      · have hbody := (hbody.occurs hx).mono (hle.trans htest.le) hclauses.le
        exact ((hbody.tail _).list _).head _
      · have hending := hending.trans_le (htest.le.trans hbody.le)
        exact (hclauses.occurs hfirst hending hx).tail _
      · cases hmem

end

end Code

/-!
# What all that occurs is like
-/

/-- All values of some kind that occur in a value have a property; the values of the kind are marked
by something that the property is about. -/
def Value.Throughout {κ : Type} (mark : κ → Val) (P : κ → Prop) (v : Val) : Prop :=
  ∀ k, (mark k).OccursIn v → P k

def Code.Throughout {κ : Type} (mark : κ → Val) (P : κ → Prop) (code : Code) : Prop :=
  ∀ k, (mark k).OccursInCode code → P k

variable {κ : Type} {mark : κ → Val} {P : κ → Prop}

namespace Value

theorem throughout_atom {a : Atom} (h : ∀ k, mark k = .atom a → P k) :
    Throughout mark P (.atom a) :=
  fun k hoccurs => h k (occursIn_atom_iff.mp hoccurs)

theorem throughout_primitive {p : Primitive} (h : ∀ k, mark k = .primitive p → P k) :
    Throughout mark P (.primitive p) :=
  fun k hoccurs => h k (occursIn_primitive_iff.mp hoccurs)

theorem throughout_undefined (h : ∀ k, mark k = .undefined → P k) :
    Throughout mark P .undefined :=
  fun k hoccurs => h k (occursIn_undefined_iff.mp hoccurs)

theorem throughout_list {id : Identity} {items : List Val} (h : ∀ k, mark k = .list id items → P k)
    (hitems : ∀ v ∈ items, v.Throughout mark P) :
    Throughout mark P (.list id items) := by
  intro k hoccurs
  rcases hoccurs.eq_or_item with heq | ⟨v, hv, hoccurs⟩
  · exact h k heq
  · exact hitems v hv k hoccurs

theorem throughout_procedure {id : Identity} {ps : List Symbol} {body : Code} {env : Env}
    (h : ∀ k, mark k = .procedure id ps body env → P k) (hbody : body.Throughout mark P) :
    Throughout mark P (.procedure id ps body env) := by
  intro k hoccurs
  rcases hoccurs.eq_or_body with heq | hoccurs
  · exact h k heq
  · exact hbody k hoccurs

theorem Throughout.items {id : Identity} {items : List Val}
    (h : Throughout mark P (.list id items)) :
    ∀ v ∈ items, v.Throughout mark P :=
  fun _ hv k hoccurs => h k (.item hv hoccurs)

theorem Throughout.body {id : Identity} {ps : List Symbol} {body : Code} {env : Env}
    (h : Throughout mark P (.procedure id ps body env)) :
    body.Throughout mark P :=
  fun k hoccurs => h k (.body hoccurs)

end Value

namespace Code

theorem Throughout.literal {v : Val} (h : (Code.literal v).Throughout mark P) :
    v.Throughout mark P :=
  fun k hoccurs => h k (.literal hoccurs)

theorem Throughout.part {code part : Code} (h : code.Throughout mark P)
    (hpart : part ∈ code.parts) :
    part.Throughout mark P :=
  fun k hoccurs => h k (.part hpart hoccurs)

theorem Throughout.lambda {ps : List Symbol} {body : Code}
    (h : (Code.lambda ps body).Throughout mark P) :
    body.Throughout mark P :=
  fun k hoccurs => h k (.lambda hoccurs)

end Code
end MiniLisp
