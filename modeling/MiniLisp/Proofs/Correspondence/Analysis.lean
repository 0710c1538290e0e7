import MiniLisp.Proofs.Code.Alike
import MiniLisp.Proofs.Code.Translation

/-!
# Analysis of matched expressions

Expressions that differ only in identities, and in like procedures, are analyzed alike: with the
same fault, or into alike code.  The identities that the two analyses give out are matched one by
one.

## Main statements

* `Code.analyze_alike`: analyses of matched expressions are alike.
* `Likeness.Runs.makeValue`: a datum has matched values.
-/

namespace MiniLisp

/-!
# Identities given out on both sides
-/

inductive Matching.GivesOut :
    Matching → Identity → Identity → Matching → Identity → Identity → Prop where
  | refl {W n n'} : GivesOut W n n' W n n'
  | step {W n n' W' m m'} :
      GivesOut (W.withIdentity n n') (n + 1) (n' + 1) W' m m' →
      GivesOut W n n' W' m m'

namespace Matching.GivesOut

variable {W W' W'' : Matching} {n n' m m' k k' : Identity}

theorem le (h : W.GivesOut n n' W' m m') : W ≤ W' := by
  induction h with
  | refl => exact le_refl _
  | step _ ih => exact (Matching.le_withIdentity _ _ _).trans ih

theorem trans (h : W.GivesOut n n' W' k k') (h' : W'.GivesOut k k' W'' m m') :
    W.GivesOut n n' W'' m m' := by
  induction h with
  | refl => exact h'
  | step _ ih => exact .step (ih h')

theorem stores {β γ : Type} {L : Likeness β γ} (h : W.GivesOut n n' W' m m')
    {s : Store β} {t : Store γ} (hs : s.nextIdentity = n) (ht : t.nextIdentity = n')
    (hstores : L.Stores W s t) :
    W.Grows L.namings W' s { s with nextIdentity := m } t { t with nextIdentity := m' } ∧
      L.Stores W' { s with nextIdentity := m } { t with nextIdentity := m' } := by
  induction h generalizing s t with
  | refl =>
      subst hs ht
      exact ⟨.refl _ s t, hstores⟩
  | step _ ih =>
      subst hs ht
      have hrest := ih rfl rfl hstores.fresh
      exact ⟨Matching.Grows.fresh.trans hrest.1, hrest.2⟩

end Matching.GivesOut

theorem Likeness.Endings.of_givesOut {β γ α α' : Type} {L : Likeness β γ} {W W' : Matching}
    {R : Matching → α → α' → Prop} {s : Store β} {t : Store γ} {m m' : Identity}
    (h : W.GivesOut s.nextIdentity t.nextIdentity W' m m') (hstores : L.Stores W s t)
    {x : α} {y : α'} (hxy : R W' x y) :
    L.Endings W R s t (some (.ok x, { s with nextIdentity := m }))
      (some (.ok y, { t with nextIdentity := m' })) :=
  .value (h.stores rfl rfl hstores).1 (h.stores rfl rfl hstores).2 hxy

namespace Value

variable {β γ : Type} (L : Likeness β γ)

mutual

theorem ofDatum_givesOut (W : Matching) (n n' : Identity) (d : Datum) :
    ∃ W', W.GivesOut n n' W' (ofDatum (β := β) n d).2 (ofDatum (β := γ) n' d).2 ∧
      L.Values W' (ofDatum n d).1 (ofDatum n' d).1 := by
  match d with
  | .atom a => exact ⟨W, .refl, .atom a⟩
  | .list ds =>
      rcases ofData_givesOut (W.withIdentity n n') (n + 1) (n' + 1) ds with ⟨W', hgives, hitems⟩
      exact ⟨W', .step hgives, .list (hgives.le.identities (Or.inr ⟨rfl, rfl⟩)) hitems⟩

theorem ofData_givesOut (W : Matching) (n n' : Identity) (ds : List Datum) :
    ∃ W', W.GivesOut n n' W' (ofData (β := β) n ds).2 (ofData (β := γ) n' ds).2 ∧
      List.Forall₂ (L.Values W') (ofData n ds).1 (ofData n' ds).1 := by
  match ds with
  | [] => exact ⟨W, .refl, .nil⟩
  | d :: rest =>
      rcases ofDatum_givesOut W n n' d with ⟨W', hgives, hv⟩
      rcases ofData_givesOut W' (ofDatum (β := β) n d).2 (ofDatum (β := γ) n' d).2 rest with
        ⟨W'', hgives', hvs⟩
      exact ⟨W'', hgives.trans hgives', .cons (hv.mono hgives'.le) hvs⟩

end

end Value

theorem Likeness.Runs.makeValue {β γ : Type} (L : Likeness β γ) (W : Matching) (d : Datum) :
    L.Runs W L.Values (Run.makeValue d) (Run.makeValue d) := by
  intro s t hstores
  rcases Value.ofDatum_givesOut L W s.nextIdentity t.nextIdentity d with ⟨W', hgives, hvw⟩
  exact .of_givesOut hgives hstores hvw

/-!
# Analyses that end alike
-/

namespace Analysis

variable {α α' δ δ' : Type}

inductive Endings (W : Matching) (R : Matching → α → α' → Prop) (n n' : Identity) :
    Except Fault (α × Identity) → Except Fault (α' × Identity) → Prop where
  | value {W' x y m m'} :
      W.GivesOut n n' W' m m' →
      R W' x y →
      Endings W R n n' (.ok (x, m)) (.ok (y, m'))
  | fault (fault : Fault) : Endings W R n n' (.error fault) (.error fault)

def Alike (W : Matching) (R : Matching → α → α' → Prop) (a : Analysis α) (b : Analysis α') :
    Prop :=
  ∀ n n', Endings W R n n' (a n) (b n')

namespace Alike

variable {W : Matching} {R : Matching → α → α' → Prop} {S : Matching → δ → δ' → Prop}

theorem pure {x : α} {y : α'} (h : R W x y) :
    Alike W R (Pure.pure x) (Pure.pure y) :=
  fun _ _ => .value .refl h

theorem fail (cause : Fault.Cause) : Alike W R (Analysis.fail cause) (Analysis.fail cause) :=
  fun _ _ => .fault { cause }

theorem fresh : Alike W (fun W' => W'.identities) Analysis.fresh Analysis.fresh :=
  fun _ _ => .value (.step .refl) (Or.inr ⟨rfl, rfl⟩)

theorem bind {a : Analysis α} {b : Analysis α'} {f : α → Analysis δ} {g : α' → Analysis δ'}
    (hab : Alike W R a b)
    (hfg : ∀ W' x y, W ≤ W' → R W' x y → Alike W' S (f x) (g y)) :
    Alike W S (a >>= f) (b >>= g) := by
  intro n n'
  change Endings W S n n' (a n >>= fun r => f r.1 r.2) (b n' >>= fun r => g r.1 r.2)
  have hends := hab n n'
  revert hends
  generalize a n = p
  generalize b n' = q
  intro hends
  cases hends with
  | @value W' x y m m' hgives hxy =>
      have hnext := hfg W' x y hgives.le hxy m m'
      change Endings W S n n' (f x m) (g y m')
      revert hnext
      generalize f x m = p
      generalize g y m' = q
      intro hnext
      cases hnext with
      | value hgives' hvalue => exact .value (hgives.trans hgives') hvalue
      | fault fault => exact .fault fault
  | fault fault => exact .fault fault

theorem blaming {e e' : Val} (h : e.shown = e'.shown) {a : Analysis α} {b : Analysis α'}
    (hab : Alike W R a b) :
    Alike W R (Analysis.blaming e a) (Analysis.blaming e' b) := by
  intro n n'
  unfold Analysis.blaming
  have hends := hab n n'
  revert hends
  generalize a n = p
  generalize b n' = q
  intro hends
  cases hends with
  | value hgives hxy => exact .value hgives hxy
  | fault fault =>
      rw [h]
      exact .fault _

end Alike
end Analysis

/-!
# What derived forms make of matched expressions
-/

namespace Value.Matches

variable {β γ : Type} {identities : Identity → Identity → Prop}
  {alike : Closure β → Closure γ → Prop} {v : Value β} {w : Value γ}

theorem symbol?_eq (h : Value.Matches identities alike v w) : v.symbol? = w.symbol? := by
  cases h with
  | atom a => cases a <;> rfl
  | _ => rfl

theorem ofHead?_eq (h : Value.Matches identities alike v w) :
    Keyword.ofHead? v = Keyword.ofHead? w := by
  unfold Keyword.ofHead?
  rw [h.symbol?_eq]

theorem isConstant_eq (h : Value.Matches identities alike v w) :
    v.isConstant = w.isConstant := by
  cases h with
  | atom a => cases a <;> rfl
  | list _ hitems => cases hitems <;> rfl
  | _ => rfl

end Value.Matches

namespace Derived

variable {β γ : Type} {identities : Identity → Identity → Prop}
  {alike : Closure β → Closure γ → Prop} {id id' : Identity}

theorem parameterNames_eq {ps : List (Value β)} {qs : List (Value γ)}
    (h : List.Forall₂ (Value.Matches identities alike) ps qs) :
    parameterNames ps = parameterNames qs := by
  induction h with
  | nil => rfl
  | cons hp _ ih =>
      rw [parameterNames, parameterNames, hp.symbol?_eq, hp.shown_eq, ih]

theorem symbols_matches (names : List Symbol) :
    List.Forall₂ (Value.Matches identities alike) (names.map .symbol) (names.map .symbol) := by
  induction names with
  | nil => exact .nil
  | cons name names ih => exact .cons (.atom (.symbol name)) ih

theorem form_matches (hid : identities id id') (keyword : Keyword)
    {items : List (Value β)} {items' : List (Value γ)}
    (hitems : List.Forall₂ (Value.Matches identities alike) items items') :
    Value.Matches identities alike (form id keyword items) (form id' keyword items') :=
  .list hid (.cons (.atom _) hitems)

theorem procedureDefinition_matches (hid : identities id id')
    {signature signature' : Identity} (hsignature : identities signature signature')
    {name : Value β} {name' : Value γ} (hname : Value.Matches identities alike name name')
    {parameters body : List (Value β)} {parameters' body' : List (Value γ)}
    (hparameters : List.Forall₂ (Value.Matches identities alike) parameters parameters')
    (hbody : List.Forall₂ (Value.Matches identities alike) body body') :
    Value.Matches identities alike (procedureDefinition id signature name parameters body)
      (procedureDefinition id' signature' name' parameters' body') :=
  form_matches hid .define (.cons hname
    (.cons (form_matches hid .lambda (.cons (.list hsignature hparameters) hbody)) .nil))

theorem localScope_matches (hid : identities id id') (names : List Symbol)
    {values body : List (Value β)} {values' body' : List (Value γ)}
    (hvalues : List.Forall₂ (Value.Matches identities alike) values values')
    (hbody : List.Forall₂ (Value.Matches identities alike) body body') :
    Value.Matches identities alike (localScope id names values body)
      (localScope id' names values' body') :=
  .list hid (.cons
    (form_matches hid .lambda (.cons (.list hid (symbols_matches names)) hbody)) hvalues)

theorem clauseTest_matches {test : Value β} {test' : Value γ}
    (h : Value.Matches identities alike test test') :
    Value.Matches identities alike (clauseTest test) (clauseTest test') := by
  unfold clauseTest
  rw [h.symbol?_eq]
  split
  · exact .atom _
  · exact h

theorem clause_matches (hid : identities id id') {c : Value β} {c' : Value γ}
    (h : Value.Matches identities alike c c') :
    Results (fun p q => Value.Matches identities alike p.1 q.1 ∧
      Value.Matches identities alike p.2 q.2) (clause id c) (clause id' c') := by
  have hshown := h.shown_eq
  cases h with
  | list hscope hitems =>
      cases hitems with
      | nil =>
          simp only [clause, hshown]
          exact .error _
      | cons htest hbody =>
          cases hbody with
          | nil =>
              simp only [clause, hshown]
              exact .error _
          | cons hfirst hrest =>
              cases hrest with
              | nil => exact .ok ⟨clauseTest_matches htest, hfirst⟩
              | cons hsecond hrest =>
                  exact .ok ⟨clauseTest_matches htest,
                    form_matches hid .sequence (.cons hfirst (.cons hsecond hrest))⟩
  | _ =>
      simp only [clause, hshown]
      exact .error _

theorem conditional_matches (hid : identities id id')
    {ending : Value β} {ending' : Value γ} (hending : Value.Matches identities alike ending ending')
    {clauses : List (Value β)} {clauses' : List (Value γ)}
    (h : List.Forall₂ (Value.Matches identities alike) clauses clauses') :
    Results (Value.Matches identities alike) (conditional id ending clauses)
      (conditional id' ending' clauses') := by
  induction h with
  | nil => exact .ok hending
  | @cons c c' rest rest' hc _ ih =>
      rw [conditional, conditional]
      revert ih
      generalize conditional id ending rest = p
      generalize conditional id' ending' rest' = q
      intro ih
      cases ih with
      | error cause => exact .error cause
      | ok halternative =>
          have hclause := clause_matches hid hc
          revert hclause
          generalize clause id c = p
          generalize clause id' c' = q
          intro hclause
          cases hclause with
          | error cause => exact .error cause
          | ok hparts =>
              exact .ok (form_matches hid .branch
                (.cons hparts.1 (.cons hparts.2 (.cons halternative .nil))))

theorem binding_matches {b : Value β} {id' : Identity} {name : Symbol} {value' : Value γ}
    (h : Value.Matches identities alike b (.list id' [.symbol name, value'])) :
    ∃ id value, b = .list id [.symbol name, value] ∧
      Value.Matches identities alike value value' := by
  cases h with
  | list _ hitems =>
      cases hitems with
      | cons hname hrest =>
          cases hname
          cases hrest with
          | cons hvalue hnil =>
              cases hnil
              exact ⟨_, _, rfl, hvalue⟩

theorem bindingParts_matches {bindings : List (Value β)} {bindings' : List (Value γ)}
    (h : List.Forall₂ (Value.Matches identities alike) bindings bindings') :
    Results (fun p q => p.1 = q.1 ∧ List.Forall₂ (Value.Matches identities alike) p.2 q.2)
      (bindingParts bindings) (bindingParts bindings') := by
  fun_induction bindingParts bindings' generalizing bindings with
  | case1 =>
      cases h
      exact .ok ⟨rfl, .nil⟩
  | case2 _ _ _ _ _ hrest' ih =>
      cases h with
      | cons hb hrest =>
          rcases binding_matches hb with ⟨_, _, rfl, _⟩
          have hparts := ih hrest
          rw [hrest'] at hparts
          rw [bindingParts]
          revert hparts
          generalize bindingParts _ = p
          intro hparts
          cases hparts
          exact .error _
  | case3 _ _ _ _ _ _ hrest' ih =>
      cases h with
      | cons hb hrest =>
          rcases binding_matches hb with ⟨_, _, rfl, hvalue⟩
          have hparts := ih hrest
          rw [hrest'] at hparts
          rw [bindingParts]
          revert hparts
          generalize bindingParts _ = p
          intro hparts
          cases hparts with
          | ok hparts =>
              rcases hparts with ⟨hnames, hvalues⟩
              exact .ok ⟨congrArg _ hnames, .cons hvalue hvalues⟩
  | case4 b' _ hshape =>
      cases h with
      | cons hb _ =>
          rw [bindingParts, hb.shown_eq]
          · exact .error _
          · rintro _ _ _ rfl
            cases hb with
            | list _ hitems =>
                cases hitems with
                | cons hname hrest =>
                    cases hname
                    cases hrest with
                    | cons _ hnil =>
                        cases hnil
                        exact hshape _ _ _ rfl

theorem bindingParts_ok {bindings : List (Value β)} {bindings' : List (Value γ)}
    (h : List.Forall₂ (Value.Matches identities alike) bindings bindings')
    {names : List Symbol} {values : List (Value β)}
    (hparts : bindingParts bindings = .ok (names, values)) :
    ∃ values', bindingParts bindings' = .ok (names, values') ∧
      List.Forall₂ (Value.Matches identities alike) values values' := by
  rcases (bindingParts_matches h).exists_ok hparts with ⟨⟨names', values'⟩, hparts', rfl, hvalues⟩
  exact ⟨values', hparts', hvalues⟩

end Derived

theorem Keyword.Refuses.of_matches {β γ : Type} {identities : Identity → Identity → Prop}
    {alike : Closure β → Closure γ → Prop} {keyword : Keyword} {items : List (Value β)}
    {items' : List (Value γ)} {cause : Fault.Cause} (h : keyword.Refuses items cause)
    (hitems : List.Forall₂ (Value.Matches identities alike) items items') :
    keyword.Refuses items' cause := by
  cases h with
  | quote hshape =>
      apply Refuses.quote
      rintro datum rfl
      rcases hitems with _ | ⟨_, ⟨⟩⟩
      exact hshape _ rfl
  | branch htwo hthree =>
      apply Refuses.branch
      · rintro test consequent rfl
        rcases hitems with _ | ⟨_, _ | ⟨_, ⟨⟩⟩⟩
        exact htwo _ _ rfl
      · rintro test consequent alternative rfl
        rcases hitems with _ | ⟨_, _ | ⟨_, _ | ⟨_, ⟨⟩⟩⟩⟩
        exact hthree _ _ _ rfl
  | nameless =>
      rcases hitems with _ | ⟨_ | ⟨_, ⟨⟩⟩, _⟩
      exact .nameless
  | operands hshape =>
      rcases hitems with _ | ⟨⟨⟩, hrest⟩
      apply Refuses.operands
      rintro value rfl
      rcases hrest with _ | ⟨_, ⟨⟩⟩
      exact hshape _ rfl
  | target hsignature hname =>
      apply Refuses.target
      · rintro scope signature rest rfl
        rcases hitems with _ | ⟨⟨⟩, _⟩
        exact hsignature _ _ _ rfl
      · rintro name rest rfl
        rcases hitems with _ | ⟨⟨⟩, _⟩
        exact hname _ _ rfl
  | assign hshape =>
      apply Refuses.assign
      rintro name value rfl
      rcases hitems with _ | ⟨⟨⟩, _ | ⟨_, ⟨⟩⟩⟩
      exact hshape _ _ rfl
  | parameters hnames =>
      rcases hitems with _ | ⟨_ | ⟨_, hparameters⟩, _⟩
      exact .parameters ((Derived.parameterNames_eq hparameters).symm.trans hnames)
  | lambda hshape =>
      apply Refuses.lambda
      rintro scope parameters body rfl
      rcases hitems with _ | ⟨⟨⟩, _⟩
      exact hshape _ _ _ rfl
  | bindings hparts =>
      rcases hitems with _ | ⟨_ | ⟨_, hbindings⟩, _⟩
      exact .bindings ((Derived.bindingParts_matches hbindings).eq_error hparts)
  | letForm hshape =>
      apply Refuses.letForm
      rintro scope bindings body rfl
      rcases hitems with _ | ⟨⟨⟩, _⟩
      exact hshape _ _ _ rfl

/-!
# Analysis of matched expressions
-/

namespace Code

variable {N : Namings}

def AnalyzedAlike (N : Namings) (e : Val) : Prop :=
  ∀ {W e'}, (likeness N).Values W e e' →
    Analysis.Alike W (fun W' => Alike N W' Eq) (analyze e) (analyze e')

def EachAnalyzedAlike (N : Namings) (es : List Val) : Prop :=
  ∀ {W es'}, List.Forall₂ ((likeness N).Values W) es es' →
    Analysis.Alike W (fun W' => AlikeEach N W' Eq) (analyzeEach es) (analyzeEach es')

def FormAnalyzedAlike (N : Namings) (keyword : Keyword) (id : Identity) (items : List Val) : Prop :=
  ∀ {W id' items'}, W.identities id id' → List.Forall₂ ((likeness N).Values W) items items' →
    Analysis.Alike W (fun W' => Alike N W' Eq) (analyzeForm keyword id items)
      (analyzeForm keyword id' items')

def BodyAnalyzedAlike (N : Namings) (body : List Val) : Prop :=
  ∀ {W body'}, List.Forall₂ ((likeness N).Values W) body body' →
    Analysis.Alike W (fun W' => Alike N W' Eq) (analyzeBody body) (analyzeBody body')

section

variable {id : Identity} {head : Val} {rest : List Val}

theorem AnalyzedAlike.symbol (name : Symbol) : AnalyzedAlike N (.symbol name) := by
  intro W e' he
  cases he
  rw [analyze_symbol]
  exact .pure (.reference rfl)

theorem AnalyzedAlike.constant {e : Val} (hconstant : e.isConstant) : AnalyzedAlike N e := by
  intro W e' he
  rw [analyze_constant hconstant, analyze_constant (he.isConstant_eq ▸ hconstant)]
  exact .pure (.literal he)

theorem AnalyzedAlike.form {keyword : Keyword} (hhead : Keyword.ofHead? head = some keyword)
    (hform : FormAnalyzedAlike N keyword id rest) :
    AnalyzedAlike N (.list id (head :: rest)) := by
  intro W e' he
  have hshown := he.shown_eq
  cases he with
  | list hid hitems =>
      cases hitems with
      | cons hhead' hrest =>
          rw [analyze_form hhead, analyze_form (hhead'.ofHead?_eq ▸ hhead)]
          exact .blaming hshown (hform hid hrest)

theorem AnalyzedAlike.application (hhead : Keyword.ofHead? head = none)
    (hoperator : AnalyzedAlike N head) (hoperands : EachAnalyzedAlike N rest) :
    AnalyzedAlike N (.list id (head :: rest)) := by
  intro W e' he
  cases he with
  | list hid hitems =>
      cases hitems with
      | cons hhead' hrest =>
          rw [analyze_application hhead, analyze_application (hhead'.ofHead?_eq ▸ hhead)]
          refine (hoperator hhead').bind fun W' c d hle hcd => ?_
          refine (hoperands (Likeness.Values.mono_each hle hrest)).bind fun W'' cs ds hle' hcs => ?_
          exact .pure (.application (hcd.mono hle') hcs)

theorem EachAnalyzedAlike.nil : EachAnalyzedAlike N [] := by
  intro W es' hes
  cases hes
  rw [analyzeEach]
  exact .pure .nil

theorem EachAnalyzedAlike.cons (hhead : AnalyzedAlike N head) (hrest : EachAnalyzedAlike N rest) :
    EachAnalyzedAlike N (head :: rest) := by
  intro W es' hes
  cases hes with
  | cons he hes =>
      rw [analyzeEach, analyzeEach]
      refine (hhead he).bind fun W' c d hle hcd => ?_
      refine (hrest (Likeness.Values.mono_each hle hes)).bind fun W'' cs ds hle' hcs => ?_
      exact .pure (.cons (hcd.mono hle') hcs)

theorem BodyAnalyzedAlike.empty : BodyAnalyzedAlike N [] := by
  intro W body' hbody
  cases hbody
  rw [analyzeBody]
  exact .fail _

theorem BodyAnalyzedAlike.last (hlast : AnalyzedAlike N head) : BodyAnalyzedAlike N [head] := by
  intro W body' hbody
  cases hbody with
  | cons he hrest =>
      cases hrest
      rw [analyzeBody, analyzeBody]
      exact hlast he

theorem BodyAnalyzedAlike.cons {second : Val} (hhead : AnalyzedAlike N head)
    (hrest : BodyAnalyzedAlike N (second :: rest)) :
    BodyAnalyzedAlike N (head :: second :: rest) := by
  intro W body' hbody
  cases hbody with
  | cons he hmore =>
      have hes := hmore
      cases hmore with
      | cons _ _ =>
          rw [analyzeBody_cons, analyzeBody_cons]
          refine (hhead he).bind fun W' c d hle hcd => ?_
          refine (hrest (Likeness.Values.mono_each hle hes)).bind fun W'' cs ds hle' hcs => ?_
          exact .pure (.andThen (hcd.mono hle') hcs)

end

/-! Forms of a right shape. -/

section

variable {id scope : Identity} {name : Symbol} {value : Val} {body : List Val}

theorem FormAnalyzedAlike.quote (datum : Val) : FormAnalyzedAlike N .quote id [datum] := by
  intro W id' items' hid hitems
  cases hitems with
  | cons hdatum hrest =>
      cases hrest
      rw [analyzeForm, analyzeForm]
      exact .pure (.literal hdatum)

theorem FormAnalyzedAlike.branchOnly {test consequent : Val} (htest : AnalyzedAlike N test)
    (hconsequent : AnalyzedAlike N consequent) :
    FormAnalyzedAlike N .branch id [test, consequent] := by
  intro W id' items' hid hitems
  rcases hitems with _ | ⟨ht, _ | ⟨hc, ⟨⟩⟩⟩
  rw [analyzeForm, analyzeForm]
  refine (htest ht).bind fun W' t t' hle ht => ?_
  refine (hconsequent (hc.mono hle)).bind fun W'' c c' hle' hc => ?_
  exact .pure (.branch (ht.mono hle') hc (.literal .undefined))

theorem FormAnalyzedAlike.branch {test consequent alternative : Val}
    (htest : AnalyzedAlike N test) (hconsequent : AnalyzedAlike N consequent)
    (halternative : AnalyzedAlike N alternative) :
    FormAnalyzedAlike N .branch id [test, consequent, alternative] := by
  intro W id' items' hid hitems
  rcases hitems with _ | ⟨ht, _ | ⟨hc, _ | ⟨ha, ⟨⟩⟩⟩⟩
  rw [analyzeForm, analyzeForm]
  refine (htest ht).bind fun W' t t' hle ht => ?_
  refine (hconsequent (hc.mono hle)).bind fun W'' c c' hle' hc => ?_
  refine (halternative ((ha.mono hle).mono hle')).bind fun _ a a' hle'' ha => ?_
  exact .pure (.branch ((ht.mono hle').mono hle'') (hc.mono hle'') ha)

theorem FormAnalyzedAlike.sequence (hbody : BodyAnalyzedAlike N body) :
    FormAnalyzedAlike N .sequence id body := by
  intro W id' items' hid hitems
  rw [analyzeForm, analyzeForm]
  exact hbody hitems

theorem FormAnalyzedAlike.procedure {target : Val} {parameters : List Val}
    (hdefinition : AnalyzedAlike N (Derived.procedureDefinition id scope target parameters body)) :
    FormAnalyzedAlike N .define id (.list scope (target :: parameters) :: body) := by
  intro W id' items' hid hitems
  cases hitems with
  | cons hsignature hbody =>
      cases hsignature with
      | list hscope hsignature =>
          cases hsignature with
          | cons htarget hparameters =>
              rw [analyzeForm, analyzeForm]
              exact hdefinition
                (Derived.procedureDefinition_matches hid hscope htarget hparameters hbody)

theorem FormAnalyzedAlike.define (hvalue : AnalyzedAlike N value) :
    FormAnalyzedAlike N .define id [.symbol name, value] := by
  intro W id' items' hid hitems
  rcases hitems with _ | ⟨⟨⟩, _ | ⟨hv, ⟨⟩⟩⟩
  rw [analyzeForm, analyzeForm]
  exact (hvalue hv).bind fun W' c d _ hcd => .pure (.define rfl hcd)

theorem FormAnalyzedAlike.assign (hvalue : AnalyzedAlike N value) :
    FormAnalyzedAlike N .assign id [.symbol name, value] := by
  intro W id' items' hid hitems
  rcases hitems with _ | ⟨⟨⟩, _ | ⟨hv, ⟨⟩⟩⟩
  rw [analyzeForm, analyzeForm]
  exact (hvalue hv).bind fun W' c d _ hcd => .pure (.assign rfl hcd)

theorem FormAnalyzedAlike.lambda {parameters : List Val} {names : List Symbol}
    (hnames : Derived.parameterNames parameters = .ok names) (hbody : BodyAnalyzedAlike N body) :
    FormAnalyzedAlike N .lambda id (.list scope parameters :: body) := by
  intro W id' items' hid hitems
  cases hitems with
  | cons hscope hitems =>
      cases hscope with
      | list _ hparameters =>
          have hnames' := (Derived.parameterNames_eq hparameters).symm.trans hnames
          rw [analyzeForm_lambda hnames, analyzeForm_lambda hnames']
          refine (hbody hitems).bind fun W' c d _ hcd => ?_
          exact .pure (.lambda (List.forall₂_same.mpr fun _ _ => rfl) hcd)

theorem FormAnalyzedAlike.cond {clauses : List Val}
    (hexpansion : ∀ ending e, Derived.conditional id (.list ending []) clauses = .ok e →
      AnalyzedAlike N e) :
    FormAnalyzedAlike N .cond id clauses := by
  intro W id' clauses' hid hclauses
  rw [analyzeForm_cond, analyzeForm_cond]
  refine Analysis.Alike.fresh.bind fun W' ending ending' hle hending => ?_
  have hexpansions := Derived.conditional_matches (hle.identities hid)
    (Value.Matches.list hending .nil) (Likeness.Values.mono_each hle hclauses)
  revert hexpansions
  generalize hp : Derived.conditional id (.list ending []) clauses = p
  generalize Derived.conditional id' (.list ending' []) clauses' = q
  intro hexpansions
  cases hexpansions with
  | ok hee' => exact hexpansion ending _ hp hee'
  | error cause => exact .fail cause

theorem FormAnalyzedAlike.letForm {bindings values : List Val} {names : List Symbol}
    (hparts : Derived.bindingParts bindings = .ok (names, values))
    (hscope : AnalyzedAlike N (Derived.localScope id names values body)) :
    FormAnalyzedAlike N .letForm id (.list scope bindings :: body) := by
  intro W id' items' hid hitems
  cases hitems with
  | cons hbindings hbody =>
      cases hbindings with
      | list _ hbindings =>
          rcases Derived.bindingParts_ok hbindings hparts with ⟨values', hparts', hvalues⟩
          rw [analyzeForm_letForm, analyzeForm_letForm, hparts, hparts']
          exact hscope (Derived.localScope_matches hid names hvalues hbody)

end

theorem FormAnalyzedAlike.refused {id : Identity} {keyword : Keyword} {items : List Val}
    {cause : Fault.Cause} (h : keyword.Refuses items cause) :
    FormAnalyzedAlike N keyword id items := by
  intro W id' items' hid hitems
  rw [analyzeForm_of_refuses h, analyzeForm_of_refuses (h.of_matches hitems)]
  exact .fail cause

theorem analyzedAlike_induction :
    AnalysisInduction (AnalyzedAlike N) (EachAnalyzedAlike N) (FormAnalyzedAlike N)
      (BodyAnalyzedAlike N) where
  symbol := AnalyzedAlike.symbol
  constant := .constant
  application := .application
  form := .form
  none := EachAnalyzedAlike.nil
  each := .cons
  quote := FormAnalyzedAlike.quote
  branchOnly := .branchOnly
  branch := .branch
  sequence := .sequence
  define := .define
  procedure := .procedure
  assign := .assign
  lambda := .lambda
  cond := .cond
  letForm := .letForm
  refused := .refused
  empty := BodyAnalyzedAlike.empty
  last := .last
  body := .cons

/-- Analyses of matched expressions are alike. -/
theorem analyze_alike {W : Matching} {e e' : Val} (h : (likeness N).Values W e e') :
    Analysis.Alike W (fun W' => Alike N W' Eq) (analyze e) (analyze e') :=
  analyzedAlike_induction.all.1 e h

end Code

theorem Likeness.Runs.analyze {N : Namings} {W : Matching} {e e' : Val}
    (h : (Code.likeness N).Values W e e') :
    (Code.likeness N).Runs W (fun W' => Code.Alike N W' Eq) (Run.analyze e) (Run.analyze e') := by
  intro s t hstores
  have hends := Code.analyze_alike h s.nextIdentity t.nextIdentity
  simp only [Run.analyze, ExceptT.mk]
  revert hends
  generalize Code.analyze e s.nextIdentity = p
  generalize Code.analyze e' t.nextIdentity = q
  intro hends
  cases hends with
  | value hgives halike => exact .of_givesOut hgives hstores halike
  | fault fault => exact .fault (.refl W s t) hstores

end MiniLisp
