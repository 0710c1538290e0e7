import MiniLisp.Proofs.Code.Phases

/-!
# The form that is blamed

A fault of analysis blames a form.  Analysis goes from the outside in, so the form is the innermost
one around what is wrong, and the shape of that form is what is wrong with it.  But two forms are
rewritten and the result is analyzed in their place: the definition of a procedure, and a `let`
whose bindings are in order.  A fault in the shape of one of these is found in a form that the
rewriting has built, and it is this form that is blamed, although it stands nowhere in the
expression.  A `cond` is rewritten as well, but nothing is left to be wrong with what it becomes.

## Main statement

* `Code.analysis_blames`: which form is blamed for a fault of analysis.
-/

namespace MiniLisp

/-- The forms that are rewritten: another expression is analyzed in their place, and their own shape
is not looked at further. -/
inductive Keyword.Rewrites {β : Type} : Keyword → List (Value β) → Prop where
  | define {signature name parameters body} :
      Keyword.Rewrites .define (.list signature (name :: parameters) :: body)
  | letForm {scope bindings body parts} :
      Derived.bindingParts bindings = .ok parts →
      Keyword.Rewrites .letForm (.list scope bindings :: body)

/-- The forms that rewriting builds in place of a form: the definition of a procedure becomes the
definition of a name as a `lambda`, and a `let` becomes the application of one.  What is built may
be rewritten in turn. -/
inductive Value.Builds {β : Type} : Value β → Value β → Prop where
  | definition {id head signature name parameters body} :
      Keyword.ofHead? head = some .define →
      Value.Builds (.list id (head :: .list signature (name :: parameters) :: body))
        (Derived.procedureDefinition id signature name parameters body)
  | procedure {id head signature name parameters body} :
      Keyword.ofHead? head = some .define →
      Value.Builds (.list id (head :: .list signature (name :: parameters) :: body))
        (Derived.form id .lambda (.list signature parameters :: body))
  | scope {id head scope bindings body names values} :
      Keyword.ofHead? head = some .letForm →
      Derived.bindingParts bindings = .ok (names, values) →
      Value.Builds (.list id (head :: .list scope bindings :: body))
        (Derived.form id .lambda (.list id (names.map .symbol) :: body))
  | again {whole between built} :
      Value.Builds whole between →
      Value.Builds between built →
      Value.Builds whole built

def Value.Misshapen {β : Type} (e : Value β) : Prop :=
  ∃ id head rest keyword, e = .list id (head :: rest) ∧
    Keyword.ofHead? head = some keyword ∧ ¬ keyword.Fits rest

theorem Keyword.not_rewrites {β : Type} {keyword : Keyword} {items : List (Value β)}
    (h : keyword ≠ .define ∧ keyword ≠ .letForm) :
    ¬ keyword.Rewrites items := by
  intro hrewrites
  cases hrewrites with
  | define => exact h.1 rfl
  | letForm => exact h.2 rfl

/-!
# Shapes of rewritten forms
-/

namespace Derived

variable {β : Type}

theorem exists_parameterNames {parameters : List (Value β)}
    (h : ∀ p ∈ parameters, p.symbol?.isSome) :
    ∃ names, parameterNames parameters = .ok names := by
  induction parameters with
  | nil => exact ⟨[], rfl⟩
  | cons p rest ih =>
      rcases Option.isSome_iff_exists.mp (h p (.head _)) with ⟨name, hname⟩
      rcases ih fun q hq => h q (.tail _ hq) with ⟨names, hnames⟩
      refine ⟨name :: names, ?_⟩
      rw [parameterNames, hname, hnames]
      rfl

theorem exists_bindingParts {bindings : List (Value β)}
    (h : ∀ b ∈ bindings, ∃ id name value, b = .list id [.symbol name, value]) :
    ∃ parts, bindingParts bindings = .ok parts := by
  induction bindings with
  | nil => exact ⟨_, rfl⟩
  | cons b rest ih =>
      rcases h b (.head _) with ⟨id, name, value, rfl⟩
      rcases ih fun c hc => h c (.tail _ hc) with ⟨⟨names, values⟩, hparts⟩
      refine ⟨(name :: names, value :: values), ?_⟩
      rw [bindingParts, hparts]

theorem clause_eq_ok {id : Identity} {c test consequent : Value β}
    (h : clause id c = .ok (test, consequent)) :
    ∃ j t body, c = .list j (t :: body) ∧ test = clauseTest t ∧ body ≠ [] ∧
      (body = [consequent] ∨ consequent = form id .sequence body) := by
  unfold clause at h
  split at h
  · cases h
  · cases h
    exact ⟨_, _, _, rfl, rfl, List.cons_ne_nil _ _, .inl rfl⟩
  · rename_i hsome _
    cases h
    exact ⟨_, _, _, rfl, rfl, hsome, .inr rfl⟩
  · cases h

theorem exists_clause (id j : Identity) (t : Value β) {body : List (Value β)} (h : body ≠ []) :
    ∃ parts, clause id (.list j (t :: body)) = .ok parts := by
  match body with
  | [] => exact absurd rfl h
  | [_] => exact ⟨_, rfl⟩
  | _ :: _ :: _ => exact ⟨_, rfl⟩

theorem exists_conditional {id : Identity} {ending : Value β} {clauses : List (Value β)}
    (h : ∀ c ∈ clauses, ∃ j t body, c = .list j (t :: body) ∧ body ≠ []) :
    ∃ e, conditional id ending clauses = .ok e := by
  induction clauses with
  | nil => exact ⟨ending, rfl⟩
  | cons c rest ih =>
      rcases ih fun d hd => h d (.tail _ hd) with ⟨alternative, halternative⟩
      rcases h c (.head _) with ⟨j, t, body, rfl, hbody⟩
      rcases exists_clause id j t hbody with ⟨parts, hparts⟩
      refine ⟨form id .branch [parts.1, parts.2, alternative], ?_⟩
      rw [conditional, halternative, hparts]

end Derived

section

variable {β : Type} {id : Identity} {keyword : Keyword} {items clauses : List (Value β)}
  {cause : Fault.Cause}

theorem Keyword.Refuses.not_fits (h : keyword.Refuses items cause) : ¬ keyword.Fits items := by
  intro hfits
  cases h with
  | quote hshape =>
      cases hfits with
      | quote => exact hshape _ rfl
  | branch htwo hthree =>
      cases hfits with
      | branchOnly => exact htwo _ _ rfl
      | branch => exact hthree _ _ _ rfl
  | nameless =>
      cases hfits with
      | procedure hsignature => cases hsignature
  | operands hshape =>
      cases hfits with
      | define => exact hshape _ rfl
      | procedure hsignature => cases hsignature
  | target hsignature hname =>
      cases hfits with
      | define => exact hname _ _ rfl
      | procedure hnested =>
          cases hnested with
          | name => exact hsignature _ _ _ rfl
          | nested => exact hsignature _ _ _ rfl
  | assign hshape =>
      cases hfits with
      | assign => exact hshape _ _ rfl
  | parameters hnames =>
      cases hfits with
      | lambda hparameters =>
          rcases Derived.exists_parameterNames hparameters with ⟨names, hsome⟩
          cases hnames.symm.trans hsome
  | lambda hshape =>
      cases hfits with
      | lambda => exact hshape _ _ _ rfl
  | bindings hparts =>
      cases hfits with
      | letForm hbindings =>
          rcases Derived.exists_bindingParts hbindings with ⟨parts, hsome⟩
          cases hparts.symm.trans hsome
  | letForm hshape =>
      cases hfits with
      | letForm => exact hshape _ _ _ rfl

theorem Keyword.Refuses.not_rewrites (h : keyword.Refuses items cause) :
    ¬ keyword.Rewrites items := by
  intro hrewrites
  cases hrewrites with
  | define =>
      cases h with
      | target hsignature => exact hsignature _ _ _ rfl
  | letForm hsome =>
      cases h with
      | bindings hparts => cases hparts.symm.trans hsome
      | letForm hshape => exact hshape _ _ _ rfl

theorem Keyword.not_fits_of_conditional {ending : Value β}
    (h : Derived.conditional id ending clauses = .error cause) :
    ¬ Keyword.Fits .cond clauses := by
  intro hfits
  cases hfits with
  | cond hclauses =>
      rcases Derived.exists_conditional hclauses with ⟨e, hsome⟩
      cases h.symm.trans hsome

end

theorem Keyword.Fits.of_procedure {β : Type} {signature : Identity} {name : Value β}
    {parameters body : List (Value β)}
    (h : Keyword.Fits .define (.list signature (name :: parameters) :: body)) (id : Identity) :
    Keyword.Fits .define
        [name, Derived.form id .lambda (.list signature parameters :: body)] ∧
      Keyword.Fits .lambda (.list signature parameters :: body) := by
  cases h with
  | procedure hsignature hbody =>
      cases hsignature with
      | name hparameters => exact ⟨.define, .lambda hparameters hbody⟩
      | nested hname hparameters =>
          exact ⟨.procedure hname (List.cons_ne_nil _ _), .lambda hparameters hbody⟩

/-!
# What stands in a rewritten form
-/

namespace Value

variable {β : Type} {F : Value β} {id : Identity} {head : Value β} {rest : List (Value β)}
  {keyword : Keyword}

theorem StandsIn.in_form (h : F.StandsIn (.list id (head :: rest)))
    (hhead : Keyword.ofHead? head = some keyword) :
    F = .list id (head :: rest) ∨
      ∃ part, (part ∈ keyword.partsHere rest ∨ part ∈ keyword.partsInside rest) ∧
        F.StandsIn part := by
  cases h with
  | self => exact .inl rfl
  | here hmem hpart =>
      rw [partsHere, hhead] at hmem
      exact .inr ⟨_, .inl hmem, hpart⟩
  | inside hmem hpart =>
      rw [partsInside, hhead] at hmem
      exact .inr ⟨_, .inr hmem, hpart⟩

theorem StandsIn.in_application (h : F.StandsIn (.list id (head :: rest)))
    (hhead : Keyword.ofHead? head = none) :
    F = .list id (head :: rest) ∨ ∃ part ∈ head :: rest, F.StandsIn part := by
  cases h with
  | self => exact .inl rfl
  | here hmem hpart =>
      rw [partsHere, hhead] at hmem
      exact .inr ⟨_, hmem, hpart⟩
  | inside hmem =>
      rw [partsInside, hhead] at hmem
      cases hmem

theorem StandsIn.of_part (hhead : Keyword.ofHead? head = some keyword) {part : Value β}
    (hpart : part ∈ keyword.partsHere rest ∨ part ∈ keyword.partsInside rest)
    (h : F.StandsIn part) :
    F.StandsIn (.list id (head :: rest)) := by
  cases hpart with
  | inl hhere =>
      refine .here ?_ h
      rw [partsHere, hhead]
      exact hhere
  | inr hinside =>
      refine .inside ?_ h
      rw [partsInside, hhead]
      exact hinside

theorem StandsIn.eq_of_isConstant {e : Value β} (h : F.StandsIn e) (he : e.isConstant = true) :
    F = e := by
  cases e with
  | list id items =>
      cases items with
      | nil =>
          cases h with
          | self => rfl
          | here hmem => cases hmem
          | inside hmem => cases hmem
      | cons head rest => cases he
  | _ =>
      cases h with
      | self => rfl
      | here hmem => cases hmem
      | inside hmem => cases hmem

theorem Misshapen.not_isConstant {e : Value β} (h : e.Misshapen) : e.isConstant ≠ true := by
  rcases h with ⟨id, head, rest, keyword, rfl, -, -⟩
  exact Bool.false_ne_true

theorem StandsIn.in_lambda {parameters : Value β} {body : List (Value β)}
    (h : F.StandsIn (Derived.form id .lambda (parameters :: body))) :
    F = Derived.form id .lambda (parameters :: body) ∨ ∃ part ∈ body, F.StandsIn part := by
  rcases h.in_form (Derived.ofHead?_symbol .lambda) with heq | ⟨part, hmem | hmem, hpart⟩
  · exact .inl heq
  · cases hmem
  · exact .inr ⟨part, hmem, hpart⟩

theorem StandsIn.in_procedureDefinition {signature : Identity} {name : Value β}
    {parameters body : List (Value β)}
    (h : F.StandsIn (Derived.procedureDefinition id signature name parameters body)) :
    F = Derived.procedureDefinition id signature name parameters body ∨
      F = Derived.form id .lambda (.list signature parameters :: body) ∨
      ∃ part ∈ body, F.StandsIn part := by
  rcases h.in_form (Derived.ofHead?_symbol .define) with heq | ⟨part, hmem, hpart⟩
  · exact .inl heq
  · have hlambda : part = Derived.form id .lambda (.list signature parameters :: body) := by
      cases name <;> rcases hmem with hmem | hmem <;>
        first | exact List.mem_singleton.mp hmem | cases hmem
    rw [hlambda] at hpart
    exact .inr hpart.in_lambda

theorem StandsIn.in_localScope {names : List Symbol} {values body : List (Value β)}
    (h : F.StandsIn (Derived.localScope id names values body)) (hF : F.Misshapen) :
    F = Derived.form id .lambda (.list id (names.map .symbol) :: body) ∨
      ∃ part, (part ∈ body ∨ part ∈ values) ∧ F.StandsIn part := by
  rcases h.in_application rfl with rfl | ⟨part, hmem, hpart⟩
  · rcases hF with ⟨_, _, _, keyword, heq, hhead, -⟩
    cases heq
    cases hhead
  · cases hmem with
    | head =>
        rcases hpart.in_lambda with heq | ⟨part, hmem, hpart⟩
        · exact .inl heq
        · exact .inr ⟨part, .inl hmem, hpart⟩
    | tail _ hmem => exact .inr ⟨part, .inr hmem, hpart⟩

theorem Misshapen.ne_form {items : List (Value β)} (hF : F.Misshapen)
    (hfits : keyword.Fits items) : F ≠ Derived.form id keyword items := by
  rintro rfl
  rcases hF with ⟨_, _, _, other, heq, hhead, hmisfit⟩
  cases heq
  rw [Derived.ofHead?_symbol] at hhead
  cases hhead
  exact hmisfit hfits

theorem StandsIn.in_clauseTest {test : Value β} (h : F.StandsIn (Derived.clauseTest test))
    (hF : F.Misshapen) :
    F.StandsIn test := by
  unfold Derived.clauseTest at h
  split at h
  · exact absurd (h.eq_of_isConstant rfl ▸ rfl) hF.not_isConstant
  · exact h

theorem StandsIn.in_consequent {body : List (Value β)} {consequent : Value β}
    (h : F.StandsIn consequent) (hF : F.Misshapen) (hbody : body ≠ [])
    (hconsequent : body = [consequent] ∨ consequent = Derived.form id .sequence body) :
    ∃ part ∈ body, F.StandsIn part := by
  rcases hconsequent with rfl | rfl
  · exact ⟨consequent, .head _, h⟩
  · rcases h.in_form (Derived.ofHead?_symbol .sequence) with heq | ⟨part, hmem | hmem, hpart⟩
    · exact absurd heq (hF.ne_form (.sequence hbody))
    · exact ⟨part, hmem, hpart⟩
    · cases hmem

theorem StandsIn.in_conditional {ending e : Value β} {clauses : List (Value β)}
    (he : Derived.conditional id ending clauses = .ok e) (hending : ending.isConstant = true)
    (h : F.StandsIn e) (hF : F.Misshapen) :
    ∃ part ∈ Keyword.partsHere .cond clauses, F.StandsIn part := by
  induction clauses generalizing e with
  | nil =>
      cases he
      exact absurd (h.eq_of_isConstant hending ▸ hending) hF.not_isConstant
  | cons c rest ih =>
      rw [Derived.conditional] at he
      cases hrest : Derived.conditional id ending rest with
      | error cause =>
          rw [hrest] at he
          cases he
      | ok alternative =>
          cases hclause : Derived.clause id c with
          | error cause =>
              rw [hrest, hclause] at he
              cases he
          | ok parts =>
              rcases parts with ⟨test, consequent⟩
              rw [hrest, hclause] at he
              cases he
              rcases Derived.clause_eq_ok hclause with ⟨j, t, body, rfl, rfl, hbody, hconsequent⟩
              have hparts : Keyword.partsHere .cond (.list j (t :: body) :: rest) =
                  t :: (body ++ Keyword.partsHere .cond rest) :=
                List.flatMap_cons
              rw [hparts]
              rcases h.in_form (Derived.ofHead?_symbol .branch) with
                heq | ⟨part, hmem | hmem, hpart⟩
              · exact absurd heq (hF.ne_form .branch)
              · rcases hmem with _ | ⟨_, _ | ⟨_, _ | ⟨_, hmem⟩⟩⟩
                · exact ⟨t, .head _, hpart.in_clauseTest hF⟩
                · rcases hpart.in_consequent hF hbody hconsequent with ⟨part, hmem, hpart⟩
                  exact ⟨part, .tail _ (List.mem_append_left _ hmem), hpart⟩
                · rcases ih hrest hpart with ⟨part, hmem, hpart⟩
                  exact ⟨part, .tail _ (List.mem_append_right _ hmem), hpart⟩
                · cases hmem
              · cases hmem

end Value

/-!
# Faults and the forms they come of
-/

namespace Code

open Analysis (bind_eq_error pure_ne_error fresh_ne_error blaming_eq_error)

/-- A fault that comes of the shape of a form: it is the one that analysis of this form alone
reports, and it blames the form itself, or one that rewriting builds in its place. -/
inductive Misshapes (fault : Fault) : Val → Prop where
  | itself {id head rest keyword n} :
      Keyword.ofHead? head = some keyword →
      ¬ keyword.Fits rest →
      ¬ keyword.Rewrites rest →
      analyze (.list id (head :: rest)) n = .error fault →
      fault.form = some (Value.list id (head :: rest)).shown →
      Misshapes fault (.list id (head :: rest))
  | built {id head rest keyword n built} :
      Keyword.ofHead? head = some keyword →
      ¬ keyword.Fits rest →
      keyword.Rewrites rest →
      analyze (.list id (head :: rest)) n = .error fault →
      (Value.list id (head :: rest)).Builds built →
      fault.form = some built.shown →
      Misshapes fault (.list id (head :: rest))

def ComesOf (fault : Fault) (e : Val) : Prop :=
  ∃ F, F.StandsIn e ∧ Misshapes fault F

inductive ComesOfForm (fault : Fault) (keyword : Keyword) (id : Identity) (items : List Val) :
    Prop where
  | part {part} :
      (part ∈ keyword.partsHere items ∨ part ∈ keyword.partsInside items) →
      ComesOf fault part →
      ComesOfForm fault keyword id items
  | shape :
      fault.form = none →
      ¬ keyword.Fits items →
      ¬ keyword.Rewrites items →
      ComesOfForm fault keyword id items
  | built {built} :
      (∀ head, Keyword.ofHead? head = some keyword →
        (Value.list id (head :: items)).Builds built) →
      fault.form = some built.shown →
      ¬ keyword.Fits items →
      keyword.Rewrites items →
      ComesOfForm fault keyword id items

def ComesOfBody (fault : Fault) (body : List Val) : Prop :=
  (fault.form = none ∧ body = []) ∨ ∃ e ∈ body, ComesOf fault e

section

variable {fault : Fault} {e F : Val} {es body : List Val} {id : Identity} {head : Val}
  {rest items : List Val} {keyword : Keyword} {n : Identity}

theorem Misshapes.misshapen (h : Misshapes fault F) : F.Misshapen := by
  cases h with
  | itself hhead hmisfit => exact ⟨_, _, _, _, rfl, hhead, hmisfit⟩
  | built hhead hmisfit => exact ⟨_, _, _, _, rfl, hhead, hmisfit⟩

theorem Misshapes.isSome_form (h : Misshapes fault F) : fault.form.isSome := by
  cases h with
  | itself _ _ _ _ hform => exact Option.isSome_of_eq_some hform
  | built _ _ _ _ _ hform => exact Option.isSome_of_eq_some hform

theorem Misshapes.of_form (h : Misshapes fault (.list id (head :: rest)))
    (hhead : Keyword.ofHead? head = some keyword) :
    ¬ keyword.Fits rest ∧
      ((¬ keyword.Rewrites rest ∧ fault.form = some (Value.list id (head :: rest)).shown) ∨
        keyword.Rewrites rest ∧
          ∃ built, (Value.list id (head :: rest)).Builds built ∧
            fault.form = some built.shown) := by
  cases h with
  | itself hsome hmisfit hrewrites _ hform =>
      cases hhead.symm.trans hsome
      exact ⟨hmisfit, .inl ⟨hrewrites, hform⟩⟩
  | built hsome hmisfit hrewrites _ hbuilds hform =>
      cases hhead.symm.trans hsome
      exact ⟨hmisfit, .inr ⟨hrewrites, _, hbuilds, hform⟩⟩

theorem ComesOf.of_form (hhead : Keyword.ofHead? head = some keyword)
    (hn : analyzeForm keyword id rest n = .error fault)
    (h : ComesOfForm fault keyword id rest) :
    ComesOf (fault.blame (Value.list id (head :: rest)).shown) (.list id (head :: rest)) := by
  have hanalyze : analyze (.list id (head :: rest)) n =
      .error (fault.blame (Value.list id (head :: rest)).shown) := by
    rw [analyze_form hhead, Analysis.blaming, hn]
  cases h with
  | part hpart hcomes =>
      rcases hcomes with ⟨F, hF, hshape⟩
      rw [Fault.blame_of_isSome hshape.isSome_form]
      exact ⟨F, hF.of_part hhead hpart, hshape⟩
  | shape hnone hmisfit hrewrites =>
      have hform : (fault.blame (Value.list id (head :: rest)).shown).form =
          some (Value.list id (head :: rest)).shown := by
        rw [Fault.blame, hnone]
        rfl
      exact ⟨_, .self, .itself hhead hmisfit hrewrites hanalyze hform⟩
  | built hbuilds hform hmisfit hrewrites =>
      rw [Fault.blame_of_isSome (Option.isSome_of_eq_some hform)] at hanalyze ⊢
      exact ⟨_, .self, .built hhead hmisfit hrewrites hanalyze (hbuilds head hhead) hform⟩

/-- The definition of a procedure: what is wrong is its target, its parameters or its body, and this
is so of the definition or of the `lambda` that is built, or else it is something in the body. -/
theorem ComesOfForm.of_procedureDefinition {signature : Identity} {name : Val}
    {parameters : List Val}
    (h : ComesOf fault (Derived.procedureDefinition id signature name parameters body)) :
    ComesOfForm fault .define id (.list signature (name :: parameters) :: body) := by
  rcases h with ⟨F, hF, hshape⟩
  rcases hF.in_procedureDefinition with rfl | rfl | ⟨part, hmem, hpart⟩
  · rcases hshape.of_form (Derived.ofHead?_symbol .define) with ⟨hmisfit, hblamed⟩
    have horiginal : ¬ Keyword.Fits .define (.list signature (name :: parameters) :: body) :=
      fun hfits => hmisfit (hfits.of_procedure id).1
    rcases hblamed with ⟨-, hform⟩ | ⟨-, built, hbuilds, hform⟩
    · exact .built (fun _ hhead => .definition hhead) hform horiginal .define
    · exact .built (fun _ hhead => .again (.definition hhead) hbuilds) hform horiginal .define
  · rcases hshape.of_form (Derived.ofHead?_symbol .lambda) with
      ⟨hmisfit, ⟨-, hform⟩ | ⟨hrewrites, -⟩⟩
    · exact .built (fun _ hhead => .procedure hhead) hform
        (fun hfits => hmisfit (hfits.of_procedure id).2) .define
    · cases hrewrites
  · exact .part (.inr hmem) ⟨F, hpart, hshape⟩

/-- A `let` whose bindings are in order: what is wrong is its body, and this is so of the `lambda`
that is built, or else it is something in the body or in a value. -/
theorem ComesOfForm.of_localScope {scope : Identity} {bindings values : List Val}
    {names : List Symbol} (hparts : Derived.bindingParts bindings = .ok (names, values))
    (h : ComesOf fault (Derived.localScope id names values body)) :
    ComesOfForm fault .letForm id (.list scope bindings :: body) := by
  have hnames : ∀ p ∈ names.map (Value.symbol : Symbol → Val), p.symbol?.isSome :=
    Value.isSome_symbol?_of_parameterNames (parameterNames_symbols names)
  rcases h with ⟨F, hF, hshape⟩
  rcases hF.in_localScope hshape.misshapen with rfl | ⟨part, hmem | hmem, hpart⟩
  · rcases hshape.of_form (Derived.ofHead?_symbol .lambda) with
      ⟨hmisfit, ⟨-, hform⟩ | ⟨hrewrites, -⟩⟩
    · refine .built (fun _ hhead => .scope hhead hparts) hform (fun hfits => hmisfit ?_)
        (.letForm hparts)
      cases hfits with
      | letForm _ hbody => exact .lambda hnames hbody
    · cases hrewrites
  · exact .part (.inr hmem) ⟨F, hpart, hshape⟩
  · exact .part (.inl (Value.mem_partsHere_of_bindingParts hparts hmem scope body))
      ⟨F, hpart, hshape⟩

theorem ComesOfForm.of_conditional {ending : Val} {clauses : List Val}
    (he : Derived.conditional id ending clauses = .ok e) (hending : ending.isConstant = true)
    (h : ComesOf fault e) :
    ComesOfForm fault .cond id clauses := by
  rcases h with ⟨F, hF, hshape⟩
  rcases hF.in_conditional he hending hshape.misshapen with ⟨part, hmem, hpart⟩
  exact .part (.inl hmem) ⟨F, hpart, hshape⟩

theorem ComesOfForm.of_sequence (h : ComesOfBody fault body) :
    ComesOfForm fault .sequence id body := by
  rcases h with ⟨hform, rfl⟩ | ⟨e, he, hcomes⟩
  · refine .shape hform ?_ (Keyword.not_rewrites (by decide))
    intro hfits
    cases hfits with
    | sequence hbody => exact hbody rfl
  · exact .part (.inl he) hcomes

theorem ComesOfForm.of_lambda {scope : Identity} {parameters : List Val}
    (h : ComesOfBody fault body) :
    ComesOfForm fault .lambda id (.list scope parameters :: body) := by
  rcases h with ⟨hform, rfl⟩ | ⟨e, he, hcomes⟩
  · refine .shape hform ?_ (Keyword.not_rewrites (by decide))
    intro hfits
    cases hfits with
    | lambda _ hbody => exact hbody rfl
  · exact .part (.inr he) hcomes

theorem ComesOf.of_application (hhead : Keyword.ofHead? head = none) (he : e ∈ head :: rest)
    (h : ComesOf fault e) :
    ComesOf fault (.list id (head :: rest)) := by
  rcases h with ⟨F, hF, hshape⟩
  refine ⟨F, .here ?_ hF, hshape⟩
  rw [Value.partsHere, hhead]
  exact he

end

/-- Every fault of analyzing an expression comes of the shape of a form in it. -/
def Traceable (e : Val) : Prop :=
  ∀ n fault, analyze e n = .error fault → ComesOf fault e

def EachTraceable (es : List Val) : Prop :=
  ∀ n fault, analyzeEach es n = .error fault → ∃ e ∈ es, ComesOf fault e

def FormTraceable (keyword : Keyword) (id : Identity) (items : List Val) : Prop :=
  ∀ n fault, analyzeForm keyword id items n = .error fault → ComesOfForm fault keyword id items

def BodyTraceable (body : List Val) : Prop :=
  ∀ n fault, analyzeBody body n = .error fault → ComesOfBody fault body

section

variable {id scope : Identity} {e head test consequent value : Val} {body rest items : List Val}
  {keyword : Keyword} {name : Symbol}

theorem traceable_symbol (name : Symbol) : Traceable (.symbol name) := by
  intro n fault h
  rw [analyze_symbol] at h
  exact absurd h pure_ne_error

theorem traceable_constant (hconstant : e.isConstant = true) : Traceable e := by
  intro n fault h
  rw [analyze_constant hconstant] at h
  exact absurd h pure_ne_error

theorem Traceable.application (hhead : Keyword.ofHead? head = none) (hoperator : Traceable head)
    (hoperands : EachTraceable rest) :
    Traceable (.list id (head :: rest)) := by
  unfold Traceable
  rw [analyze_application hhead]
  apply Analysis.forall_error_bind
  · exact fun n fault h => (hoperator n fault h).of_application hhead (.head _)
  · intro operator
    apply Analysis.forall_error_bind
    · intro n fault h
      rcases hoperands n fault h with ⟨e, he, hcomes⟩
      exact hcomes.of_application hhead (.tail _ he)
    · exact fun _ _ _ h => absurd h pure_ne_error

theorem Traceable.form (hhead : Keyword.ofHead? head = some keyword)
    (hform : FormTraceable keyword id rest) :
    Traceable (.list id (head :: rest)) := by
  intro n fault h
  rw [analyze_form hhead] at h
  rcases blaming_eq_error h with ⟨inner, hinner, rfl⟩
  exact .of_form hhead hinner (hform n inner hinner)

theorem eachTraceable_nil : EachTraceable [] := by
  intro n fault h
  rw [analyzeEach] at h
  exact absurd h pure_ne_error

theorem EachTraceable.cons (he : Traceable e) (hrest : EachTraceable rest) :
    EachTraceable (e :: rest) := by
  unfold EachTraceable
  rw [analyzeEach]
  apply Analysis.forall_error_bind
  · exact fun n fault h => ⟨e, .head _, he n fault h⟩
  · intro code
    apply Analysis.forall_error_bind
    · intro n fault h
      rcases hrest n fault h with ⟨other, hother, hcomes⟩
      exact ⟨other, .tail _ hother, hcomes⟩
    · exact fun _ _ _ h => absurd h pure_ne_error

theorem bodyTraceable_nil : BodyTraceable [] := by
  intro n fault h
  rw [analyzeBody] at h
  cases h
  exact .inl ⟨rfl, rfl⟩

theorem BodyTraceable.last (he : Traceable e) : BodyTraceable [e] := by
  intro n fault h
  rw [analyzeBody] at h
  exact .inr ⟨e, .head _, he n fault h⟩

theorem BodyTraceable.cons {second : Val} (he : Traceable e)
    (hrest : BodyTraceable (second :: rest)) :
    BodyTraceable (e :: second :: rest) := by
  unfold BodyTraceable
  rw [analyzeBody_cons]
  apply Analysis.forall_error_bind
  · exact fun n fault h => .inr ⟨e, .head _, he n fault h⟩
  · intro first
    apply Analysis.forall_error_bind
    · intro n fault h
      rcases hrest n fault h with ⟨-, hnil⟩ | ⟨other, hother, hcomes⟩
      · cases hnil
      · exact .inr ⟨other, .tail _ hother, hcomes⟩
    · exact fun _ _ _ h => absurd h pure_ne_error

theorem Traceable.bind (he : Traceable e) (hmem : e ∈ keyword.partsHere items)
    {more : Code → Analysis Code}
    (hmore : ∀ code n fault, more code n = .error fault → ComesOfForm fault keyword id items) :
    ∀ n fault, (analyze e >>= more) n = .error fault → ComesOfForm fault keyword id items :=
  Analysis.forall_error_bind (fun n fault h => .part (.inl hmem) (he n fault h)) hmore

theorem formTraceable_quote (datum : Val) : FormTraceable .quote id [datum] := by
  intro n fault h
  rw [analyzeForm] at h
  exact absurd h pure_ne_error

theorem FormTraceable.branchOnly (htest : Traceable test) (hconsequent : Traceable consequent) :
    FormTraceable .branch id [test, consequent] := by
  unfold FormTraceable
  rw [analyzeForm]
  apply htest.bind (.head _)
  intro _
  apply hconsequent.bind (.tail _ (.head _))
  exact fun _ _ _ h => absurd h pure_ne_error

theorem FormTraceable.branch {alternative : Val} (htest : Traceable test)
    (hconsequent : Traceable consequent) (halternative : Traceable alternative) :
    FormTraceable .branch id [test, consequent, alternative] := by
  unfold FormTraceable
  rw [analyzeForm]
  apply htest.bind (.head _)
  intro _
  apply hconsequent.bind (.tail _ (.head _))
  intro _
  apply halternative.bind (.tail _ (.tail _ (.head _)))
  exact fun _ _ _ h => absurd h pure_ne_error

theorem FormTraceable.sequence (hbody : BodyTraceable body) : FormTraceable .sequence id body := by
  intro n fault h
  rw [analyzeForm] at h
  exact .of_sequence (hbody n fault h)

theorem FormTraceable.define (hvalue : Traceable value) :
    FormTraceable .define id [.symbol name, value] := by
  unfold FormTraceable
  rw [analyzeForm]
  apply hvalue.bind (.head _)
  exact fun _ _ _ h => absurd h pure_ne_error

theorem FormTraceable.procedure {target : Val} {parameters : List Val}
    (h : Traceable (Derived.procedureDefinition id scope target parameters body)) :
    FormTraceable .define id (.list scope (target :: parameters) :: body) := by
  intro n fault hfault
  rw [analyzeForm] at hfault
  exact .of_procedureDefinition (h n fault hfault)

theorem FormTraceable.assign (hvalue : Traceable value) :
    FormTraceable .assign id [.symbol name, value] := by
  unfold FormTraceable
  rw [analyzeForm]
  apply hvalue.bind (.head _)
  exact fun _ _ _ h => absurd h pure_ne_error

theorem FormTraceable.lambda {parameters : List Val} {names : List Symbol}
    (hnames : Derived.parameterNames parameters = .ok names) (hbody : BodyTraceable body) :
    FormTraceable .lambda id (.list scope parameters :: body) := by
  unfold FormTraceable
  rw [analyzeForm_lambda hnames]
  apply Analysis.forall_error_bind
  · exact fun n fault h => .of_lambda (hbody n fault h)
  · exact fun _ _ _ h => absurd h pure_ne_error

theorem FormTraceable.cond {clauses : List Val}
    (hexpansion : ∀ ending e, Derived.conditional id (.list ending []) clauses = .ok e →
      Traceable e) :
    FormTraceable .cond id clauses := by
  unfold FormTraceable
  rw [analyzeForm_cond]
  apply Analysis.forall_error_bind
  · exact fun _ _ h => absurd h fresh_ne_error
  · intro ending n fault h
    cases he : Derived.conditional id (.list ending []) clauses with
    | error cause =>
        rw [he] at h
        cases h
        exact .shape rfl (Keyword.not_fits_of_conditional he) (Keyword.not_rewrites (by decide))
    | ok e =>
        rw [he] at h
        exact .of_conditional he rfl (hexpansion ending e he n fault h)

theorem FormTraceable.letForm {bindings values : List Val} {names : List Symbol}
    (hparts : Derived.bindingParts bindings = .ok (names, values))
    (hscope : Traceable (Derived.localScope id names values body)) :
    FormTraceable .letForm id (.list scope bindings :: body) := by
  intro n fault h
  rw [analyzeForm_letForm, hparts] at h
  exact .of_localScope hparts (hscope n fault h)

theorem FormTraceable.refused {cause : Fault.Cause} (h : keyword.Refuses items cause) :
    FormTraceable keyword id items := by
  intro n fault hfault
  rw [analyzeForm_of_refuses h] at hfault
  cases hfault
  exact .shape rfl h.not_fits h.not_rewrites

end

theorem traceable_induction :
    AnalysisInduction Traceable EachTraceable FormTraceable BodyTraceable where
  symbol := traceable_symbol
  constant := traceable_constant
  application := .application
  form := .form
  none := eachTraceable_nil
  each := .cons
  quote := formTraceable_quote
  branchOnly := .branchOnly
  branch := .branch
  sequence := .sequence
  define := .define
  procedure := .procedure
  assign := .assign
  lambda := .lambda
  cond := .cond
  letForm := .letForm
  refused := .refused
  empty := bodyTraceable_nil
  last := .last
  body := .cons

/-- A fault of analysis comes of the shape of a keyword form in the expression, and analysis of this
form alone reports it too.  If the form is not rewritten, it is itself the form that is blamed.  If
it is rewritten, which means that it defines a procedure or is a `let` whose bindings are in order,
then what is blamed is a form that the rewriting has built. -/
theorem analysis_blames {e : Val} {n : Identity} {fault : Fault}
    (h : analyze e n = .error fault) :
    ∃ id head rest keyword,
      (Value.list id (head :: rest)).StandsIn e ∧
      Keyword.ofHead? head = some keyword ∧ ¬ keyword.Fits rest ∧
      (∃ m, analyze (.list id (head :: rest)) m = .error fault) ∧
      (¬ keyword.Rewrites rest → fault.form = some (Value.list id (head :: rest)).shown) ∧
      (keyword.Rewrites rest →
        ∃ built, (Value.list id (head :: rest)).Builds built ∧ fault.form = some built.shown) := by
  rcases traceable_induction.all.1 e n fault h with ⟨F, hF, hshape⟩
  cases hshape with
  | itself hhead hmisfit hrewrites hanalyze hform =>
      exact ⟨_, _, _, _, hF, hhead, hmisfit, ⟨_, hanalyze⟩, fun _ => hform,
        fun hnot => absurd hnot hrewrites⟩
  | built hhead hmisfit hrewrites hanalyze hbuilds hform =>
      exact ⟨_, _, _, _, hF, hhead, hmisfit, ⟨_, hanalyze⟩, fun hnot => absurd hrewrites hnot,
        fun _ => ⟨_, hbuilds, hform⟩⟩

def bodilessProcedure : Val :=
  .list 0 [.symbol ⟨"define"⟩, .list 1 [.symbol ⟨"f"⟩, .symbol ⟨"x"⟩]]

theorem analysis_blames_procedure :
    ∃ fault, analyze bodilessProcedure 2 = .error fault ∧ fault.form = some "(lambda (x))" ∧
      (∀ F : Val, F.StandsIn bodilessProcedure → fault.form ≠ some F.shown) ∧
      ∃ id head rest keyword,
        (Value.list id (head :: rest)).StandsIn bodilessProcedure ∧
        Keyword.ofHead? head = some keyword ∧ ¬ keyword.Fits rest ∧
        (∃ m, analyze (.list id (head :: rest)) m = .error fault) ∧
        (¬ keyword.Rewrites rest → fault.form = some (Value.list id (head :: rest)).shown) ∧
        (keyword.Rewrites rest →
          ∃ built, (Value.list id (head :: rest)).Builds built ∧
            fault.form = some built.shown) := by
  have hbody : analyzeBody ([] : List Val) 2 = .error { cause := .emptySequence } := by
    rw [analyzeBody]
    rfl
  have hlambda : analyze (Derived.form 0 .lambda [.list 1 [.symbol ⟨"x"⟩]] : Val) 2 =
      .error { cause := .emptySequence, form := some "(lambda (x))" } := by
    rw [Derived.form, analyze_form rfl, analyzeForm]
    change Analysis.blaming _ (analyzeBody [] >>= _) 2 = _
    rw [Analysis.blaming, bind_eq_error.mpr (.inl hbody)]
    rfl
  have hanalyze : analyze bodilessProcedure 2 =
      .error { cause := .emptySequence, form := some "(lambda (x))" } := by
    rw [bodilessProcedure, analyze_form rfl, analyzeForm, Derived.procedureDefinition,
      Derived.form, analyze_form rfl, analyzeForm, Analysis.blaming, Analysis.blaming,
      bind_eq_error.mpr (.inl hlambda)]
    rfl
  refine ⟨_, hanalyze, rfl, ?_, analysis_blames hanalyze⟩
  intro F hF
  rcases hF.in_form rfl with rfl | ⟨part, hmem | hmem, -⟩
  · change some "(lambda (x))" ≠ some "(define (f x))"
    decide
  · cases hmem
  · cases hmem

end Code

end MiniLisp
