import MiniLisp.Proofs.Code.Identities
import MiniLisp.Proofs.Code.Region

/-!
# Renaming a local name

A parameter of a procedure and everything in its form that goes by the same name may be renamed:
what the procedure does stays the same, whatever its environment binds the two names to.

## Main statement

* `Code.apply_renamed_endings`: a procedure and the procedure with a renamed parameter, applied to
  the same arguments in the same store, end alike.
-/

namespace MiniLisp

/-- A symbol that has no meaning of its own in a form. -/
structure Symbol.Ordinary (s : Symbol) : Prop where
  keyword : Keyword.ofSymbol? s = none
  otherwise : s ≠ Keyword.otherwise

def Symbol.renamed (s x z : Symbol) : Symbol :=
  if s = x then z else s

/-- A name and the name that replaces it; `z` itself is not in use before. -/
def Symbol.Renames (x z : Symbol) : Symbol → Symbol → Prop :=
  fun a b => a ≠ z ∧ b = a.renamed x z

theorem Symbol.biUnique_renames (x z : Symbol) : Relator.BiUnique (Symbol.Renames x z) := by
  constructor
  · intro a c b hab hcb
    rcases hab with ⟨ha, hab⟩
    rcases hcb with ⟨hc, hcb⟩
    have h : a.renamed x z = c.renamed x z := hab.symm.trans hcb
    unfold Symbol.renamed at h
    by_cases hax : a = x <;> by_cases hcx : c = x
    · exact hax.trans hcx.symm
    · rw [if_pos hax, if_neg hcx] at h
      exact absurd h.symm hc
    · rw [if_neg hax, if_pos hcx] at h
      exact absurd h ha
    · rw [if_neg hax, if_neg hcx] at h
      exact h
  · intro a b c hab hac
    rcases hab with ⟨_, hb⟩
    rcases hac with ⟨_, hc⟩
    exact hb.trans hc.symm

namespace Value

variable {β : Type} (x z : Symbol)

mutual

/-- A target or a parameter list with `x` replaced by `z`, where all symbols are names. -/
def renamedNames : Value β → Value β
  | .atom (.symbol s) => .symbol (s.renamed x z)
  | .list id items => .list id (renamedNamesEach items)
  | v => v

def renamedNamesEach : List (Value β) → List (Value β)
  | [] => []
  | v :: vs => renamedNames v :: renamedNamesEach vs

end

mutual

/-- An expression with `x` replaced by `z` everywhere but in quoted data. -/
def renamed : Value β → Value β
  | .atom (.symbol s) => .symbol (s.renamed x z)
  | .list id items => .list id (renamedList items)
  | v => v

def renamedList : List (Value β) → List (Value β)
  | [] => []
  | head :: rest =>
      match Keyword.ofHead? head with
      | some .quote => head :: rest
      | some .define => head :: renamedBody rest
      | some .lambda => head :: renamedBody rest
      | some .cond => head :: renamedClauses rest
      | some .letForm => head :: renamedScope rest
      | some _ => head :: renamedEach rest
      | none => renamed head :: renamedEach rest

def renamedEach : List (Value β) → List (Value β)
  | [] => []
  | e :: es => renamed e :: renamedEach es

def renamedBody : List (Value β) → List (Value β)
  | [] => []
  | target :: body => renamedNames x z target :: renamedEach body

def renamedClauses : List (Value β) → List (Value β)
  | [] => []
  | .list id items :: rest => .list id (renamedEach items) :: renamedClauses rest
  | v :: rest => v :: renamedClauses rest

def renamedScope : List (Value β) → List (Value β)
  | .list id bindings :: body => .list id (renamedClauses bindings) :: renamedEach body
  | items => items

end

def renamedForm (keyword : Keyword) (items : List (Value β)) : List (Value β) :=
  match keyword with
  | .quote => items
  | .define => renamedBody x z items
  | .lambda => renamedBody x z items
  | .cond => renamedClauses x z items
  | .letForm => renamedScope x z items
  | _ => renamedEach x z items

theorem renamed_of_keyword {head : Value β} {keyword : Keyword}
    (h : Keyword.ofHead? head = some keyword) (id : Identity) (rest : List (Value β)) :
    renamed x z (.list id (head :: rest)) = .list id (head :: renamedForm x z keyword rest) := by
  cases keyword <;> simp only [renamed, renamedList, h, renamedForm]

theorem renamed_of_application {head : Value β}
    (h : Keyword.ofHead? head = none) (id : Identity) (rest : List (Value β)) :
    renamed x z (.list id (head :: rest)) =
      .list id (renamed x z head :: renamedEach x z rest) := by
  simp only [renamed, renamedList, h]

theorem renamed_of_isConstant {e : Value β}
    (h : e.isConstant = true) :
    renamed x z e = e := by
  cases e with
  | atom a =>
      cases a with
      | symbol s => cases h
      | _ => simp only [renamed]
  | list id items =>
      cases items with
      | nil => simp only [renamed, renamedList]
      | cons head rest => cases h
  | _ => simp only [renamed]

mutual

/-- Whether a symbol occurs in a value, in its quoted data too. -/
def Mentions : Value β → Prop
  | .atom (.symbol s) => s = z
  | .list _ items => MentionsAny items
  | _ => False

def MentionsAny : List (Value β) → Prop
  | [] => False
  | v :: vs => Mentions v ∨ MentionsAny vs

end

variable {x z}

theorem not_mentionsAny_cons {v : Value β} {vs : List (Value β)} :
    ¬ MentionsAny z (v :: vs) ↔ ¬ v.Mentions z ∧ ¬ MentionsAny z vs := by
  simp only [MentionsAny, not_or]

theorem not_mentions_list {id : Identity} {vs : List (Value β)} :
    ¬ (Value.list id vs).Mentions z ↔ ¬ MentionsAny z vs := by
  simp only [Mentions]

theorem not_mentions_symbol {s : Symbol} :
    ¬ (Value.symbol s : Value β).Mentions z ↔ s ≠ z := by
  simp only [Mentions, ne_eq]

/-!
# The shape of a form stays the same
-/

theorem ofHead?_renamed (hz : z.Ordinary) {head : Value β}
    (h : Keyword.ofHead? head = none) :
    Keyword.ofHead? (head.renamed x z) = none := by
  cases head with
  | atom a =>
      cases a with
      | symbol s =>
          rw [renamed]
          unfold Symbol.renamed
          split
          · exact hz.keyword
          · exact h
      | _ =>
          simp only [renamed]
          rfl
  | list id items =>
      simp only [renamed]
      rfl
  | _ =>
      simp only [renamed]
      rfl

theorem clauseTest_renamed (hx : x.Ordinary) (hz : z.Ordinary) (test : Value β) :
    Derived.clauseTest (test.renamed x z) = (Derived.clauseTest test).renamed x z := by
  cases test with
  | atom a =>
      cases a with
      | symbol s =>
          rw [renamed]
          unfold Symbol.renamed
          by_cases hs : s = x
          · subst s
            rw [if_pos rfl]
            simp only [Derived.clauseTest, Value.symbol?, Option.some.injEq, if_neg hx.otherwise,
              if_neg hz.otherwise, renamed, Symbol.renamed, if_pos]
          · rw [if_neg hs]
            simp only [Derived.clauseTest]
            split
            · simp only [renamed]
            · simp only [renamed, Symbol.renamed, if_neg hs]
      | _ => rfl
  | list id items =>
      simp only [Derived.clauseTest, renamed, Value.symbol?]
      rfl
  | _ => rfl

theorem renames_map {names : List Symbol}
    (h : z ∉ names) :
    List.Forall₂ (Symbol.Renames x z) names (names.map fun s => s.renamed x z) := by
  induction names with
  | nil => exact .nil
  | cons name rest ih =>
      rw [List.mem_cons, not_or] at h
      exact .cons ⟨fun hname => h.1 hname.symm, rfl⟩ (ih h.2)

theorem parameterNames_renamed {parameters : List (Value β)} {names : List Symbol}
    (h : Derived.parameterNames parameters = .ok names)
    (hz : ¬ MentionsAny z parameters) :
    Derived.parameterNames (renamedNamesEach x z parameters) =
        .ok (names.map fun s => s.renamed x z) ∧
      z ∉ names := by
  induction parameters generalizing names with
  | nil =>
      cases h
      simp [renamedNamesEach, Derived.parameterNames]
  | cons p rest ih =>
      rw [not_mentionsAny_cons] at hz
      cases p with
      | atom a =>
          cases a with
          | symbol s =>
              simp only [Derived.parameterNames, Value.symbol?] at h
              cases hrest : Derived.parameterNames rest with
              | error cause =>
                  rw [hrest] at h
                  cases h
              | ok names' =>
                  rw [hrest] at h
                  cases h
                  rcases ih hrest hz.2 with ⟨hrenamed, hnames⟩
                  constructor
                  · simp only [renamedNamesEach, renamedNames, Derived.parameterNames,
                      Value.symbol?, hrenamed]
                    rfl
                  · rw [List.mem_cons, not_or]
                    exact ⟨fun hs => not_mentions_symbol.mp hz.1 hs.symm, hnames⟩
          | _ => cases h
      | _ => cases h

theorem bindingParts_renamed {bindings : List (Value β)} {names : List Symbol}
    {values : List (Value β)}
    (h : Derived.bindingParts bindings = .ok (names, values))
    (hz : ¬ MentionsAny z bindings) :
    Derived.bindingParts (renamedClauses x z bindings) =
        .ok (names.map fun s => s.renamed x z, renamedEach x z values) ∧
      z ∉ names ∧ ¬ MentionsAny z values := by
  fun_induction Derived.bindingParts bindings generalizing names values with
  | case1 =>
      cases h
      simp [renamedClauses, renamedEach, Derived.bindingParts, MentionsAny]
  | case2 => cases h
  | case3 id name value rest names' values' hrest ih =>
      cases h
      rw [not_mentionsAny_cons, not_mentions_list, not_mentionsAny_cons, not_mentionsAny_cons,
        not_mentions_symbol] at hz
      rcases hz with ⟨⟨hname, hvalue, _⟩, hz⟩
      rcases ih hrest hz with ⟨hrenamed, hnames, hvalues⟩
      refine ⟨?_, ?_, ?_⟩
      · simp only [renamedClauses, renamedEach, renamed, Derived.bindingParts, hrenamed]
        rfl
      · rw [List.mem_cons, not_or]
        exact ⟨fun hs => hname hs.symm, hnames⟩
      · rw [not_mentionsAny_cons]
        exact ⟨hvalue, hvalues⟩
  | case4 => cases h

theorem allWithin_of_bindingParts {frames : FrameId → Prop} {identities : Identity → Prop}
    {bindings values : List Val} {names : List Symbol}
    (h : Derived.bindingParts bindings = .ok (names, values))
    (hwithin : AllWithin frames identities bindings) :
    AllWithin frames identities values := by
  fun_induction Derived.bindingParts bindings generalizing names values with
  | case1 =>
      cases h
      exact hwithin
  | case2 => cases h
  | case3 id name value rest names' values' hrest ih =>
      cases h
      rcases hwithin with ⟨⟨_, _, hvalue, _⟩, hrest'⟩
      exact ⟨hvalue, ih hrest hrest'⟩
  | case4 => cases h

theorem not_mentions_clauseTest {test : Value β}
    (h : ¬ test.Mentions z) :
    ¬ (Derived.clauseTest test).Mentions z := by
  unfold Derived.clauseTest
  split
  · simp only [Mentions, not_false_eq_true]
  · exact h

theorem within_clauseTest {frames : FrameId → Prop} {identities : Identity → Prop} {test : Val}
    (h : test.Within frames identities) :
    (Derived.clauseTest test).Within frames identities := by
  unfold Derived.clauseTest
  split
  · simp only [Within]
  · exact h

theorem defined?_renamed {N : Namings} {W : Matching} (target : Val)
    {inner inner' code : Code} {name : Symbol}
    (h : defined? Code.lambda target inner = some (name, code))
    (hz : ¬ target.Mentions z)
    (hinner : Code.Alike N W (Symbol.Renames x z) inner inner') :
    ∃ code', defined? Code.lambda (target.renamedNames x z) inner' =
        some (name.renamed x z, code') ∧
      name ≠ z ∧ Code.Alike N W (Symbol.Renames x z) code code' := by
  match target with
  | .atom (.symbol s) =>
      cases h
      exact ⟨inner', rfl, not_mentions_symbol.mp hz, hinner⟩
  | .list id (target :: parameters) =>
      rw [defined?] at h
      rw [not_mentions_list, not_mentionsAny_cons] at hz
      cases hparameters : Derived.parameterNames parameters with
      | error cause =>
          rw [hparameters] at h
          cases h
      | ok names =>
          rw [hparameters] at h
          rcases parameterNames_renamed (x := x) hparameters hz.2 with ⟨hrenamed, hnames⟩
          rcases defined?_renamed target h hz.1 (.lambda (renames_map hnames) hinner) with
            ⟨code', hdefined, hname, hcode⟩
          refine ⟨code', ?_, hname, hcode⟩
          simp only [renamedNames, renamedNamesEach, defined?, hrenamed]
          exact hdefined
  | .list _ [] => cases h
  | .atom (.bool _) => cases h
  | .atom (.number _) => cases h
  | .atom (.string _) => cases h
  | .primitive _ => cases h
  | .procedure .. => cases h
  | .undefined => cases h

end Value

namespace Code

open Value (not_mentionsAny_cons not_mentions_list not_mentions_symbol)

variable {x z : Symbol} {frames : FrameId → Prop} {identities : Identity → Prop}
  {N : Namings}

/-!
# Renamed expressions become alike code

By recursion on how the rules apply.  All identities below the next free one count as within the
region, those of the empty lists that analysis gives out among them.
-/

theorem below_of_le {k m : Identity}
    (hids : ∀ i < m, identities i) (hle : k ≤ m) :
    ∀ i < k, identities i :=
  fun i hi => hids i (Nat.lt_of_lt_of_le hi hle)

mutual

theorem Translates.renamed (hx : x.Ordinary) (hz : z.Ordinary) (hN : Eq ∈ N.relations)
    {n m : Identity} {e : Val} {code : Code}
    (h : Translates n e code m)
    (hmentions : ¬ e.Mentions z)
    (hwithin : e.Within frames identities)
    (hids : ∀ i < m, identities i) :
    ∃ code', Translates n (e.renamed x z) code' m ∧
      Alike N (Matching.on frames identities) (Symbol.Renames x z) code code' := by
  match h with
  | .constant hconstant =>
      rw [Value.renamed_of_isConstant x z hconstant]
      exact ⟨_, .constant hconstant, .literal (hwithin.matches_self hN)⟩
  | .reference =>
      rw [Value.renamed]
      exact ⟨_, .reference, .reference ⟨not_mentions_symbol.mp hmentions, rfl⟩⟩
  | .application hhead hoperator hoperands =>
      rw [not_mentions_list, not_mentionsAny_cons] at hmentions
      rcases hwithin with ⟨_, hwithin, hwithin'⟩
      rcases hoperator.renamed hx hz hN hmentions.1 hwithin (below_of_le hids hoperands.le) with
        ⟨operator', hoperator', halike⟩
      rcases hoperands.renamed hx hz hN hmentions.2 hwithin' hids with
        ⟨operands', hoperands', halike'⟩
      rw [Value.renamed_of_application x z hhead]
      exact ⟨_, .application (Value.ofHead?_renamed hz hhead) hoperator' hoperands',
        .application halike halike'⟩
  | .form hhead hform =>
      rw [not_mentions_list, not_mentionsAny_cons] at hmentions
      rcases hwithin with ⟨_, _, hwithin⟩
      rcases hform.renamed hx hz hN hmentions.2 hwithin hids with ⟨code', hform', halike⟩
      rw [Value.renamed_of_keyword x z hhead]
      exact ⟨code', .form hhead hform', halike⟩

theorem TranslatesForm.renamed (hx : x.Ordinary) (hz : z.Ordinary) (hN : Eq ∈ N.relations)
    {n m : Identity} {keyword : Keyword} {items : List Val} {code : Code}
    (h : TranslatesForm n keyword items code m)
    (hmentions : ¬ Value.MentionsAny z items)
    (hwithin : Value.AllWithin frames identities items)
    (hids : ∀ i < m, identities i) :
    ∃ code', TranslatesForm n keyword (Value.renamedForm x z keyword items) code' m ∧
      Alike N (Matching.on frames identities) (Symbol.Renames x z) code code' := by
  match h with
  | .quote => exact ⟨_, .quote, .literal (hwithin.1.matches_self hN)⟩
  | .branchOnly htest hconsequent =>
      rw [not_mentionsAny_cons, not_mentionsAny_cons] at hmentions
      rcases hwithin with ⟨hwithin, hwithin', _⟩
      rcases htest.renamed hx hz hN hmentions.1 hwithin (below_of_le hids hconsequent.le) with
        ⟨t', htest', halike⟩
      rcases hconsequent.renamed hx hz hN hmentions.2.1 hwithin' hids with
        ⟨c', hconsequent', halike'⟩
      exact ⟨_, .branchOnly htest' hconsequent', .branch halike halike' (.literal .undefined)⟩
  | .branch htest hconsequent halternative =>
      rw [not_mentionsAny_cons, not_mentionsAny_cons, not_mentionsAny_cons] at hmentions
      rcases hwithin with ⟨hwithin, hwithin', hwithin'', _⟩
      have hids' := below_of_le hids halternative.le
      rcases htest.renamed hx hz hN hmentions.1 hwithin (below_of_le hids' hconsequent.le) with
        ⟨t', htest', halike⟩
      rcases hconsequent.renamed hx hz hN hmentions.2.1 hwithin' hids' with
        ⟨c', hconsequent', halike'⟩
      rcases halternative.renamed hx hz hN hmentions.2.2.1 hwithin'' hids with
        ⟨a', halternative', halike''⟩
      exact ⟨_, .branch htest' hconsequent' halternative', .branch halike halike' halike''⟩
  | .sequence hbody =>
      rcases hbody.renamed hx hz hN hmentions hwithin hids with ⟨code', hbody', halike⟩
      exact ⟨code', .sequence hbody', halike⟩
  | .define hvalue =>
      rw [not_mentionsAny_cons, not_mentionsAny_cons, not_mentions_symbol] at hmentions
      rcases hvalue.renamed hx hz hN hmentions.2.1 hwithin.2.1 hids with
        ⟨code', hvalue', halike⟩
      exact ⟨_, .define hvalue', .define ⟨hmentions.1, rfl⟩ halike⟩
  | .procedure hbody hdefined =>
      rw [not_mentionsAny_cons] at hmentions
      rcases hbody.renamed hx hz hN hmentions.2 hwithin.2 hids with ⟨inner', hbody', halike⟩
      rcases Value.defined?_renamed _ hdefined hmentions.1 halike with
        ⟨code', hdefined', hname, halike'⟩
      exact ⟨_, .procedure hbody' hdefined', .define ⟨hname, rfl⟩ halike'⟩
  | .assign hvalue =>
      rw [not_mentionsAny_cons, not_mentionsAny_cons, not_mentions_symbol] at hmentions
      rcases hvalue.renamed hx hz hN hmentions.2.1 hwithin.2.1 hids with
        ⟨code', hvalue', halike⟩
      exact ⟨_, .assign hvalue', .assign ⟨hmentions.1, rfl⟩ halike⟩
  | .lambda hnames hbody =>
      rw [not_mentionsAny_cons, not_mentions_list] at hmentions
      rcases hbody.renamed hx hz hN hmentions.2 hwithin.2 hids with ⟨code', hbody', halike⟩
      rcases Value.parameterNames_renamed (x := x) hnames hmentions.1 with ⟨hrenamed, hfresh⟩
      exact ⟨_, .lambda hrenamed hbody', .lambda (Value.renames_map hfresh) halike⟩
  | .cond hclauses =>
      have hending : identities n := hids n (Nat.lt_of_succ_le hclauses.le)
      rcases hclauses.renamed hx hz hN hmentions hwithin hending hids with
        ⟨code', hclauses', halike⟩
      exact ⟨code', .cond hclauses', halike⟩
  | .letForm hparts hbody hoperands =>
      rw [not_mentionsAny_cons, not_mentions_list] at hmentions
      rcases hwithin with ⟨⟨_, hwithin⟩, hwithin'⟩
      rcases Value.bindingParts_renamed (x := x) hparts hmentions.1 with
        ⟨hrenamed, hnames, hvalues⟩
      rcases hbody.renamed hx hz hN hmentions.2 hwithin' (below_of_le hids hoperands.le) with
        ⟨code', hbody', halike⟩
      rcases hoperands.renamed hx hz hN hvalues (Value.allWithin_of_bindingParts hparts hwithin)
        hids with ⟨operands', hoperands', halike'⟩
      exact ⟨_, .letForm hrenamed hbody' hoperands',
        .application (.lambda (Value.renames_map hnames) halike) halike'⟩

theorem TranslatesEach.renamed (hx : x.Ordinary) (hz : z.Ordinary) (hN : Eq ∈ N.relations)
    {n m : Identity} {es : List Val} {codes : List Code}
    (h : TranslatesEach n es codes m)
    (hmentions : ¬ Value.MentionsAny z es)
    (hwithin : Value.AllWithin frames identities es)
    (hids : ∀ i < m, identities i) :
    ∃ codes', TranslatesEach n (Value.renamedEach x z es) codes' m ∧
      AlikeEach N (Matching.on frames identities) (Symbol.Renames x z) codes codes' := by
  match h with
  | .nil => exact ⟨[], .nil, .nil⟩
  | .cons he hes =>
      rw [not_mentionsAny_cons] at hmentions
      rcases he.renamed hx hz hN hmentions.1 hwithin.1 (below_of_le hids hes.le) with
        ⟨code', he', halike⟩
      rcases hes.renamed hx hz hN hmentions.2 hwithin.2 hids with ⟨codes', hes', halike'⟩
      exact ⟨_, .cons he' hes', .cons halike halike'⟩

theorem TranslatesBody.renamed (hx : x.Ordinary) (hz : z.Ordinary) (hN : Eq ∈ N.relations)
    {n m : Identity} {body : List Val} {code : Code}
    (h : TranslatesBody n body code m)
    (hmentions : ¬ Value.MentionsAny z body)
    (hwithin : Value.AllWithin frames identities body)
    (hids : ∀ i < m, identities i) :
    ∃ code', TranslatesBody n (Value.renamedEach x z body) code' m ∧
      Alike N (Matching.on frames identities) (Symbol.Renames x z) code code' := by
  match h with
  | .last he =>
      rw [not_mentionsAny_cons] at hmentions
      rcases he.renamed hx hz hN hmentions.1 hwithin.1 hids with ⟨code', he', halike⟩
      exact ⟨code', .last he', halike⟩
  | .cons he hes =>
      rw [not_mentionsAny_cons] at hmentions
      rcases he.renamed hx hz hN hmentions.1 hwithin.1 (below_of_le hids hes.le) with
        ⟨first', he', halike⟩
      rcases hes.renamed hx hz hN hmentions.2 hwithin.2 hids with ⟨second', hes', halike'⟩
      exact ⟨_, .cons he' hes', .andThen halike halike'⟩

theorem TranslatesClauses.renamed (hx : x.Ordinary) (hz : z.Ordinary) (hN : Eq ∈ N.relations)
    {ending n m : Identity} {clauses : List Val} {code : Code}
    (h : TranslatesClauses ending n clauses code m)
    (hmentions : ¬ Value.MentionsAny z clauses)
    (hwithin : Value.AllWithin frames identities clauses)
    (hending : identities ending)
    (hids : ∀ i < m, identities i) :
    ∃ code', TranslatesClauses ending n (Value.renamedClauses x z clauses) code' m ∧
      Alike N (Matching.on frames identities) (Symbol.Renames x z) code code' := by
  match h with
  | .nil => exact ⟨_, .nil, .literal (.list ⟨rfl, hending⟩ .nil)⟩
  | @TranslatesClauses.cons _ _ _ _ _ id test _ _ _ _ _ htest hbody hclauses =>
      rw [not_mentionsAny_cons, not_mentions_list, not_mentionsAny_cons] at hmentions
      rcases hwithin with ⟨⟨_, hwithin, hwithin'⟩, hwithin''⟩
      have hids' := below_of_le hids hclauses.le
      rcases htest.renamed hx hz hN (Value.not_mentions_clauseTest hmentions.1.1)
        (Value.within_clauseTest hwithin) (below_of_le hids' hbody.le) with ⟨t', htest', halike⟩
      rcases hbody.renamed hx hz hN hmentions.1.2 hwithin' hids' with ⟨c', hbody', halike'⟩
      rcases hclauses.renamed hx hz hN hmentions.2 hwithin'' hending hids with
        ⟨a', hclauses', halike''⟩
      rw [← Value.clauseTest_renamed hx hz] at htest'
      exact ⟨_, .cons htest' hbody' hclauses', .branch halike halike' halike''⟩

end

/-!
# Applying a procedure with a renamed parameter
-/

/-- Every name stands for itself, or `x` stands for `z`. -/
def renamings (x z : Symbol) : Namings where
  relations := {Eq, Symbol.Renames x z}
  biUnique := by
    intro ρ hρ
    rcases hρ with rfl | rfl
    · exact biUnique_eq
    · exact Symbol.biUnique_renames x z

theorem scopes_renamed {names names' : List Symbol} {body body' : Code} {env : Env}
    (hparameter : x ∈ names)
    (hnames : List.Forall₂ (Symbol.Renames x z) names names')
    (henv : ∀ f ∈ env.chain, frames f) :
    (Matching.on frames identities).Scopes (Symbol.Renames x z)
      (⟨names, body, env⟩ : Closure Code) (⟨names', body', env⟩ : Closure Code) := by
  constructor
  · exact hnames
  · exact Matching.on_chain henv
  · intro a b hab
    rcases hab with ⟨_, rfl⟩
    by_cases hax : a = x
    · exact Or.inl (hax ▸ hparameter)
    · unfold Symbol.renamed
      rw [if_neg hax]
      exact Or.inr (Matching.on_resolves env.chain a)

/-- A form that becomes a procedure, and the form with the parameter `x` renamed to `z`.  The
procedures they make in an environment, applied to the same arguments in the same store, end alike:
what differs in values and frames is only that procedures may have `z` for `x`. -/
theorem apply_renamed_endings (hx : x.Ordinary) (hz : z.Ordinary)
    {form : Val} {n m : Identity} {names : List Symbol} {body : Code}
    (hform : analyze form n = .ok (.lambda names body, m))
    (hparameter : x ∈ names)
    (hmentions : ¬ form.Mentions z) :
    ∃ names' body', analyze (form.renamed x z) n = .ok (.lambda names' body', m) ∧
      ∀ (s : Store Code) (env : Env) (arguments : List Val) (i j : Identity) (depth : Nat),
        s.Intact → s.Holds form → m ≤ s.nextIdentity →
        (∀ f ∈ env.chain, f < s.frames.size) →
        (∀ v ∈ arguments, s.Holds v) →
        (likeness (renamings x z)).Endings s.self (likeness (renamings x z)).Values s s
          (Value.apply depth (.procedure i names body env) arguments s)
          (Value.apply depth (.procedure j names' body' env) arguments s) := by
  have htranslates := analyze_eq_ok_iff.mp hform
  have hself : Eq ∈ (renamings x z).relations := Or.inl rfl
  rcases htranslates.renamed hx hz hself hmentions (Value.within_everything form)
    (fun _ _ => trivial) with ⟨code', htranslates', halike⟩
  cases halike with
  | @lambda _ _ names' _ body' hnames _ =>
      refine ⟨names', body', analyze_eq_ok_iff.mpr htranslates', ?_⟩
      intro s env arguments i j depth hs hholds hm henv harguments
      rcases htranslates.renamed hx hz hself hmentions hholds
        (fun i hi => Nat.lt_of_lt_of_le hi hm) with ⟨code'', htranslates'', halike⟩
      have hsame : Code.lambda names' body' = code'' := by
        have heq := (analyze_eq_ok_iff.mpr htranslates').symm.trans
          (analyze_eq_ok_iff.mpr htranslates'')
        cases heq
        rfl
      rw [← hsame] at halike
      cases halike with
      | lambda hnames hbody =>
          have hvalues : List.Forall₂
              ((likeness (renamings x z)).Values s.self) arguments arguments := by
            apply List.forall₂_same.mpr
            intro v hv
            exact (harguments v hv).matches_self hself
          have hscopes : s.self.Scopes (Symbol.Renames x z)
              (⟨names, body, env⟩ : Closure Code) (⟨names', body', env⟩ : Closure Code) :=
            scopes_renamed hparameter hnames henv
          exact call_runs depth (.intro (Or.inr rfl) hscopes hbody) hvalues s s
            (hs.stores_self hself)

def parameterForm : Val :=
  .list 0 [.symbol ⟨"lambda"⟩, .list 1 [.symbol ⟨"x"⟩],
    .list 2 [.symbol ⟨"if"⟩, .symbol ⟨"x"⟩,
      .list 3 [.symbol ⟨"quote"⟩, .symbol ⟨"x"⟩], .symbol ⟨"x"⟩]]

def parameterStore : Store Code where
  frames := #[⟨[(⟨"x"⟩, .bool false), (⟨"z"⟩, .bool true)]⟩]
  nextIdentity := 4

theorem apply_renamed_endings_bound :
    ∃ names' body', analyze (parameterForm.renamed ⟨"x"⟩ ⟨"z"⟩) 0 =
        .ok (.lambda names' body', 0) ∧
      (likeness (renamings ⟨"x"⟩ ⟨"z"⟩)).Endings parameterStore.self
        (likeness (renamings ⟨"x"⟩ ⟨"z"⟩)).Values parameterStore parameterStore
        (Value.apply 2 (.procedure 0 [⟨"x"⟩] (.branch (.reference ⟨"x"⟩)
          (.literal (.symbol ⟨"x"⟩)) (.reference ⟨"x"⟩)) ⟨0, []⟩) [.bool true] parameterStore)
        (Value.apply 2 (.procedure 0 names' body' ⟨0, []⟩) [.bool true] parameterStore) := by
  have hform : analyze parameterForm 0 = .ok (.lambda [⟨"x"⟩] (.branch (.reference ⟨"x"⟩)
      (.literal (.symbol ⟨"x"⟩)) (.reference ⟨"x"⟩)), 0) :=
    analyze_eq_ok_iff.mpr (.form rfl (.lambda rfl (.last (.form rfl
      (.branch .reference (.form rfl .quote) .reference)))))
  have hmentions : ¬ parameterForm.Mentions ⟨"z"⟩ := by
    simp [parameterForm, Value.Mentions, Value.MentionsAny]
  rcases apply_renamed_endings (x := ⟨"x"⟩) (z := ⟨"z"⟩) ⟨rfl, by decide⟩ ⟨rfl, by decide⟩ hform
    List.mem_cons_self hmentions with ⟨names', body', hrenamed, hendings⟩
  refine ⟨names', body', hrenamed, ?_⟩
  apply hendings parameterStore ⟨0, []⟩ [.bool true] 0 0 2
  · constructor
    · exact fun f hf => hf
    · exact fun i hi => hi
    · intro f name v hf hfound
      have hzero : f = 0 := Nat.lt_one_iff.mp hf
      subst hzero
      change Assoc.find? name [(⟨"x"⟩, Value.bool false), (⟨"z"⟩, Value.bool true)] = some v
        at hfound
      simp only [Assoc.find?] at hfound
      split at hfound
      · cases hfound
        exact trivial
      · split at hfound <;> cases hfound
        exact trivial
  · simp [Store.Holds, parameterForm, parameterStore, Value.Within, Value.AllWithin]
  · exact Nat.zero_le _
  · intro f hf
    cases hf with
    | head => exact Nat.zero_lt_one
    | tail _ hf => cases hf
  · intro v hv
    cases hv with
    | head => simp [Store.Holds, Value.Within]
    | tail _ hv => cases hv

end Code
end MiniLisp
