import MiniLisp.Proofs.Correspondence.Analysis
import MiniLisp.Proofs.Direct.Evaluator

/-!
# Analysis agrees with direct evaluation

Running the code of an expression is matched with evaluating the expression directly.  The two
runs give out different identities, since code makes a procedure for each `let`, and a procedure's
body is code in the one and expressions in the other; nothing else differs.

## Main statement

* `Direct.run_endings`: the code that analysis makes of an expression and the expression end alike.
-/

namespace MiniLisp

/-- The identities from `n` on stand for those from `n'` on, up to `m`. -/
def Matching.Shifts (W : Matching) (n m n' : Identity) : Prop :=
  ∀ k, n + k < m → W.identities (n + k) (n' + k)

mutual

inductive Code.From (W : Matching) : Code → Source → Prop where
  | body {n m n' items items' code} :
      Code.TranslatesBody n items code m →
      List.Forall₂ (Value.Matches W.identities (Closure.From W)) items items' →
      W.Shifts n m n' →
      Code.From W code (.body n' items')
  | curried {parameters code inner} :
      Code.From W code inner →
      Code.From W (.lambda parameters code) (.curried parameters inner)

inductive Closure.From (W : Matching) : Closure Code → Closure Source → Prop where
  | intro {parameters code source env env'} :
      W.Scopes Eq (⟨parameters, code, env⟩ : Closure Code)
        (⟨parameters, source, env'⟩ : Closure Source) →
      Code.From W code source →
      Closure.From W ⟨parameters, code, env⟩ ⟨parameters, source, env'⟩

end

namespace Direct

variable {W W' : Matching}

mutual

theorem from_mono (hle : W ≤ W') {code : Code} {source : Source}
    (h : Code.From W code source) :
    Code.From W' code source := by
  cases h with
  | body hbody hitems hshifts =>
      exact .body hbody (matches_mono_each hle hitems)
        fun k hk => hle.identities (hshifts k hk)
  | curried hinner => exact .curried (from_mono hle hinner)
termination_by structural source

theorem matches_mono (hle : W ≤ W') {v : Val} {w : Term}
    (h : Value.Matches W.identities (Closure.From W) v w) :
    Value.Matches W'.identities (Closure.From W') v w := by
  cases h with
  | atom a => exact .atom a
  | list hid hitems => exact .list (hle.identities hid) (matches_mono_each hle hitems)
  | primitive p => exact .primitive p
  | procedure hid hfrom =>
      cases hfrom with
      | intro hscopes hbody =>
          exact .procedure (hle.identities hid) (.intro (hscopes.mono hle) (from_mono hle hbody))
  | undefined => exact .undefined
termination_by structural w

theorem matches_mono_each (hle : W ≤ W') {vs : List Val} {ws : List Term}
    (h : List.Forall₂ (Value.Matches W.identities (Closure.From W)) vs ws) :
    List.Forall₂ (Value.Matches W'.identities (Closure.From W')) vs ws := by
  cases h with
  | nil => exact .nil
  | cons hv hvs => exact .cons (matches_mono hle hv) (matches_mono_each hle hvs)
termination_by structural ws

end

def likeness : Likeness Code Source where
  namings := .same
  alike := Closure.From
  mono hle h := by
    cases h with
    | intro hscopes hbody => exact .intro (hscopes.mono hle) (from_mono hle hbody)

end Direct

/-!
# The shape of matched expressions
-/

namespace Value.Matches

variable {β γ : Type} {identities : Identity → Identity → Prop}
  {alike : Closure β → Closure γ → Prop}

mutual

theorem conds_eq {v : Value β} {w : Value γ}
    (h : Value.Matches identities alike v w) :
    v.conds = w.conds := by
  cases h with
  | list _ hitems =>
      simp only [Value.conds]
      exact listConds_eq hitems
  | _ => simp only [Value.conds]
termination_by structural v

theorem listConds_eq {vs : List (Value β)} {ws : List (Value γ)}
    (h : List.Forall₂ (Value.Matches identities alike) vs ws) :
    Value.listConds vs = Value.listConds ws := by
  cases h with
  | nil => simp only [Value.listConds]
  | cons hhead hrest =>
      simp only [Value.listConds]
      rw [hhead.ofHead?_eq]
      split
      · rfl
      · exact bodyConds_eq hrest
      · exact bodyConds_eq hrest
      · rw [clausesConds_eq hrest]
      · exact scopeConds_eq hrest
      · exact itemsConds_eq hrest
      · rw [conds_eq hhead, itemsConds_eq hrest]
termination_by structural vs

theorem itemsConds_eq {vs : List (Value β)} {ws : List (Value γ)}
    (h : List.Forall₂ (Value.Matches identities alike) vs ws) :
    Value.itemsConds vs = Value.itemsConds ws := by
  cases h with
  | nil => simp only [Value.itemsConds]
  | cons hv hvs =>
      simp only [Value.itemsConds]
      rw [conds_eq hv, itemsConds_eq hvs]
termination_by structural vs

theorem bodyConds_eq {vs : List (Value β)} {ws : List (Value γ)}
    (h : List.Forall₂ (Value.Matches identities alike) vs ws) :
    Value.bodyConds vs = Value.bodyConds ws := by
  cases h with
  | nil => simp only [Value.bodyConds]
  | cons _ hvs =>
      simp only [Value.bodyConds]
      exact itemsConds_eq hvs
termination_by structural vs

theorem clausesConds_eq {vs : List (Value β)} {ws : List (Value γ)}
    (h : List.Forall₂ (Value.Matches identities alike) vs ws) :
    Value.clausesConds vs = Value.clausesConds ws := by
  cases h with
  | nil => simp only [Value.clausesConds]
  | cons hv hvs =>
      cases hv with
      | list _ hitems =>
          simp only [Value.clausesConds]
          rw [itemsConds_eq hitems, clausesConds_eq hvs]
      | _ =>
          simp only [Value.clausesConds]
          exact clausesConds_eq hvs
termination_by structural vs

theorem scopeConds_eq {vs : List (Value β)} {ws : List (Value γ)}
    (h : List.Forall₂ (Value.Matches identities alike) vs ws) :
    Value.scopeConds vs = Value.scopeConds ws := by
  cases h with
  | nil => simp only [Value.scopeConds]
  | cons hv hvs =>
      cases hv with
      | list _ hitems =>
          simp only [Value.scopeConds]
          rw [itemsConds_eq hvs, clausesConds_eq hitems]
      | _ => simp only [Value.scopeConds]
termination_by structural vs

end

end Value.Matches

theorem Matching.Shifts.mono {W W' : Matching} (hle : W ≤ W') {n m n' : Identity}
    (h : W.Shifts n m n') :
    W'.Shifts n m n' :=
  fun k hk => hle.identities (h k hk)

theorem Matching.Shifts.take {W : Matching} {n k m n' : Identity}
    (h : W.Shifts n m n') (hle : k ≤ m) :
    W.Shifts n k n' :=
  fun j hj => h j (Nat.lt_of_lt_of_le hj hle)

theorem Matching.Shifts.drop {W : Matching} {n m n' : Identity}
    (h : W.Shifts n m n') (count : Nat) :
    W.Shifts (n + count) m (n' + count) := by
  intro j hj
  rw [Nat.add_assoc] at hj ⊢
  rw [Nat.add_assoc]
  exact h (count + j) hj

namespace Direct

open Code (Translates TranslatesForm TranslatesEach TranslatesBody TranslatesClauses)

variable {W : Matching}

/-!
# Steps of the direct evaluator
-/

theorem eval_symbol (depth : Nat) (next : Identity) (name : Symbol) (env : Env) :
    eval (depth + 1) next (.symbol name) env = Run.lookup env name := by
  rw [eval]

theorem eval_constant (depth : Nat) (next : Identity) {e : Term}
    (h : e.isConstant = true) (env : Env) :
    eval (depth + 1) next e env = pure e := by
  cases e with
  | atom a =>
      cases a with
      | symbol name => cases h
      | _ => rw [eval] <;> simp
  | list id items =>
      cases items with
      | nil => rw [eval] <;> simp
      | cons head rest => cases h
  | _ => rw [eval] <;> simp

theorem eval_form (depth : Nat) (next id : Identity) {head : Term} {keyword : Keyword}
    (h : Keyword.ofHead? head = some keyword) (rest : List Term) (env : Env) :
    eval (depth + 1) next (.list id (head :: rest)) env =
      evalForm depth next keyword rest env := by
  rw [eval]
  rw [h]

theorem eval_application (depth : Nat) (next id : Identity) {head : Term}
    (h : Keyword.ofHead? head = none) (rest : List Term) (env : Env) :
    eval (depth + 1) next (.list id (head :: rest)) env = (do
      let operator ← eval depth next head env
      let arguments ← each (fun next e => eval depth next e env) (next + head.conds) rest
      operator.applyWith (enter depth) arguments) := by
  rw [eval]
  rw [h]

theorem defined?_from (target : Val) {target' : Term}
    (htarget : likeness.Values W target target')
    {inner code : Code} {name : Symbol}
    (hdefined : Value.defined? Code.lambda target inner = some (name, code))
    {source : Source} (hfrom : Code.From W inner source) :
    ∃ procedure, Value.defined? Source.curried target' source = some (name, procedure) ∧
      Code.From W code procedure := by
  match target with
  | .atom (.symbol s) =>
      cases hdefined
      cases htarget
      exact ⟨source, rfl, hfrom⟩
  | .list id (target :: parameters) =>
      rw [Value.defined?] at hdefined
      cases htarget with
      | list _ hitems =>
          cases hitems with
          | cons htarget hparameters =>
              cases hnames : Derived.parameterNames parameters with
              | error cause =>
                  rw [hnames] at hdefined
                  cases hdefined
              | ok names =>
                  rw [hnames] at hdefined
                  rw [Value.defined?, ← Derived.parameterNames_eq hparameters, hnames]
                  exact defined?_from target htarget hdefined (.curried hfrom)
  | .list _ [] => cases hdefined
  | .atom (.bool _) => cases hdefined
  | .atom (.number _) => cases hdefined
  | .atom (.string _) => cases hdefined
  | .primitive _ => cases hdefined
  | .procedure .. => cases hdefined
  | .undefined => cases hdefined

/-!
# Agreement by depth

What agreement at one depth says, for every matching.  A form that nests nothing deeper than itself
is at the depth of what it consists of, so the step to the next depth goes by how the translation
rules apply.
-/

structure Agrees (depth : Nat) : Prop where
  expression : ∀ {W n m n' e e' code env env'},
    Translates n e code m → likeness.Values W e e' → W.Shifts n m n' → W.Envs Eq env env' →
    likeness.Runs W likeness.Values (code.run depth env) (eval depth n' e' env')
  body : ∀ {W n m n' items items' code env env'},
    TranslatesBody n items code m → List.Forall₂ (likeness.Values W) items items' →
    W.Shifts n m n' → W.Envs Eq env env' →
    likeness.Runs W likeness.Values (code.run depth env) (evalBody depth n' items' env')
  clauses : ∀ {W ending ending' n m n' items items' code env env'},
    TranslatesClauses ending n items code m → List.Forall₂ (likeness.Values W) items items' →
    W.identities ending ending' → W.Shifts n m n' → W.Envs Eq env env' →
    likeness.Runs W likeness.Values (code.run depth env) (evalClauses depth ending' n' items' env')
  source : ∀ {W code source env env'},
    Code.From W code source → W.Envs Eq env env' →
    likeness.Runs W likeness.Values (code.run depth env) (enter depth source env')

theorem agrees_zero : Agrees 0 := by
  constructor
  · intro W n m n' e e' code env env' _ _ _ _
    rw [eval]
    exact .tooDeep
  · intro W n m n' items items' code env env' _ _ _ _
    rw [evalBody]
    exact .tooDeep
  · intro W ending ending' n m n' items items' code env env' _ _ _ _ _
    rw [evalClauses]
    exact .tooDeep
  · intro W code source env env' _ _
    rw [enter]
    exact .tooDeep

namespace Agrees

variable {depth : Nat}

theorem each (h : Agrees depth) {n m n' : Identity} {es : List Val} {es' : List Term}
    {codes : List Code} {env env' : Env}
    (htranslates : TranslatesEach n es codes m)
    (hes : List.Forall₂ (likeness.Values W) es es')
    (hshifts : W.Shifts n m n') (henv : W.Envs Eq env env') :
    likeness.Runs W (fun W' => List.Forall₂ (likeness.Values W'))
      (codes.mapM fun code => code.run depth env)
      (Direct.each (fun next e => eval depth next e env') n' es') := by
  induction es generalizing W n n' es' codes with
  | nil =>
      cases htranslates
      cases hes
      rw [List.mapM_nil, Direct.each]
      exact .pure .nil
  | cons e es ih =>
      cases htranslates with
      | cons hcode hcodes =>
          cases hes with
          | cons he hes =>
              have hnext := hcode.next_eq
              subst hnext
              rw [List.mapM_cons, Direct.each, ← he.conds_eq]
              apply Likeness.Runs.bind
                (h.expression hcode he (hshifts.take hcodes.le) henv)
              intro W' v w hle hvw
              apply Likeness.Runs.bind (ih hcodes (Likeness.Values.mono_each hle hes)
                ((hshifts.drop _).mono hle) (henv.mono hle))
              intro W'' vs ws hle' hvs
              exact .pure (.cons (hvw.mono hle') hvs)

theorem call (h : Agrees depth) {c : Closure Code} {d : Closure Source}
    (hfrom : Closure.From W c d)
    {vs : List Val} {ws : List Term} (hvs : List.Forall₂ (likeness.Values W) vs ws) :
    likeness.Runs W likeness.Values
      (Run.extend c.env c.parameters vs >>= c.body.run depth)
      (Run.extend d.env d.parameters ws >>= enter depth d.body) := by
  cases hfrom with
  | intro hscopes hbody =>
      apply Likeness.Runs.bind (.extend rfl hscopes hvs)
      intro W' inner inner' hle hinner
      exact h.source (from_mono hle hbody) hinner

theorem procedure {parameters : List Symbol} {code : Code} {source : Source}
    (hfrom : Code.From W code source) {env env' : Env} (henv : W.Envs Eq env env') :
    likeness.Runs W likeness.Values
      (Run.fresh >>= fun id => pure (.procedure id parameters code env))
      (Run.fresh >>= fun id => pure (.procedure id parameters source env')) := by
  apply Likeness.Runs.bind .fresh
  intro W' i j hle hij
  have henv' := henv.mono hle
  apply Likeness.Runs.pure
  apply Value.Matches.procedure hij
  exact .intro
    ⟨List.forall₂_same.mpr fun _ _ => rfl, henv'.frames,
      fun m n hmn => Or.inr (henv'.names m n hmn)⟩
    (from_mono hle hfrom)

theorem tooDeep_bind {α α' δ δ' : Type} {R : Matching → δ → δ' → Prop}
    (f : α → Run Code δ) (g : α' → Run Source δ') :
    likeness.Runs W R (Run.tooDeep >>= f) (Run.tooDeep >>= g) := by
  apply Likeness.Runs.bind (R := fun _ _ _ => False) .tooDeep
  intro W' _ _ _ hfalse
  exact hfalse.elim

theorem run_branch_true (depth : Nat) (c a : Code) (env : Env) :
    (Code.branch (.literal (.bool true)) c a).run (depth + 1) env = c.run depth env := by
  cases depth with
  | zero =>
      funext s
      exact Run.bind_eq _ _ s
  | succ depth => exact pure_bind _ _

/-- The clauses of a `cond` are tried one level deeper than the `cond`, each one level deeper than
the one before. -/
theorem clauses_succ (h : Agrees depth) {ending ending' n m n' : Identity} {items : List Val}
    {items' : List Term} {code : Code} {env env' : Env}
    (htranslates : TranslatesClauses ending n items code m)
    (hitems : List.Forall₂ (likeness.Values W) items items')
    (hending : W.identities ending ending')
    (hshifts : W.Shifts n m n') (henv : W.Envs Eq env env') :
    likeness.Runs W likeness.Values (code.run (depth + 1) env)
      (evalClauses (depth + 1) ending' n' items' env') := by
  cases htranslates with
  | nil =>
      cases hitems
      rw [evalClauses]
      exact .pure (.list hending .nil)
  | @cons _ _ k l _ _ test body _ t c a htest hbody hclauses =>
      cases hitems with
      | cons hclause hrest =>
          cases hclause with
          | list _ hparts =>
              cases hparts with
              | @cons _ test' _ body' htest' hbody' =>
                  rw [evalClauses]
                  by_cases hotherwise : test'.symbol? = some Keyword.otherwise
                  · rw [if_pos hotherwise]
                    have htrue : Derived.clauseTest test = .bool true :=
                      if_pos (htest'.symbol?_eq.trans hotherwise)
                    rw [htrue] at htest
                    cases htest with
                    | constant _ =>
                        rw [run_branch_true]
                        exact h.body hbody hbody' (hshifts.take hclauses.le) henv
                  · rw [if_neg hotherwise]
                    have hself : Derived.clauseTest test = test :=
                      if_neg fun hsymbol => hotherwise (htest'.symbol?_eq.symm.trans hsymbol)
                    rw [hself] at htest
                    have hk := htest.next_eq
                    subst hk
                    have hl := hbody.next_eq
                    subst hl
                    rw [← htest'.conds_eq, ← Value.Matches.itemsConds_eq hbody']
                    have hshiftsBody := hshifts.drop test.conds
                    apply Likeness.Runs.bind (h.expression htest htest'
                      (hshifts.take (Nat.le_trans hbody.le hclauses.le)) henv)
                    intro W' v w hle hvw
                    rw [hvw.isTrue_eq]
                    split
                    · exact h.body hbody (Likeness.Values.mono_each hle hbody')
                        ((hshiftsBody.take hclauses.le).mono hle) (henv.mono hle)
                    · exact h.clauses hclauses (Likeness.Values.mono_each hle hrest)
                        (hle.identities hending) ((hshiftsBody.drop _).mono hle) (henv.mono hle)

theorem letForm_zero (names : List Symbol) (next next' : Identity) (values body : List Term)
    (env : Env) (t : Store Source) :
    (do
      let arguments ← Direct.each (fun next e => eval 0 next e env) next values
      let inner ← Run.extend env names arguments
      evalBody 0 next' body inner) t = none := by
  cases values with
  | nil =>
      rw [Direct.each, pure_bind, Run.bind_eq]
      change evalBody 0 next' body _ _ = none
      rw [evalBody]
      rfl
  | cons e es =>
      rw [Direct.each, bind_assoc, eval, Run.bind_eq]
      rfl

/-- The value expressions of a `let` are evaluated before its frame is made; the code makes a
procedure before, which leaves no trace. -/
theorem letForm (h : Agrees depth) {n k m n' : Identity} {names : List Symbol}
    {values body : List Val} {values' body' : List Term} {code : Code} {operands : List Code}
    {env env' : Env}
    (hbody : TranslatesBody n body code k)
    (hbody' : List.Forall₂ (likeness.Values W) body body')
    (hoperands : TranslatesEach k values operands m)
    (hvalues : List.Forall₂ (likeness.Values W) values values')
    (hshifts : W.Shifts n m n') (henv : W.Envs Eq env env') :
    likeness.Runs W likeness.Values
      ((Code.application (.lambda names code) operands).run (depth + 1) env)
      (do
        let arguments ← Direct.each (fun next e => eval depth next e env')
          (n' + Value.itemsConds body') values'
        let inner ← Run.extend env' names arguments
        evalBody depth n' body' inner) := by
  cases depth with
  | zero =>
      intro s t _
      rw [letForm_zero]
      exact .unanswered
  | succ depth =>
      change likeness.Runs W likeness.Values
        ((Run.fresh >>= fun id => (pure (.procedure id names code env) : Run Code Val)) >>=
          fun f => (operands.mapM fun operand => operand.run (depth + 1) env) >>= fun arguments =>
            f.applyWith (Code.run (depth + 1)) arguments) _
      rw [bind_assoc]
      apply Likeness.Runs.fresh_left
      intro id
      rw [pure_bind]
      have hk := hbody.next_eq
      subst hk
      have hshifts' := hshifts.drop (Value.itemsConds body)
      rw [← Value.Matches.itemsConds_eq hbody']
      apply Likeness.Runs.bind (h.each hoperands hvalues hshifts' henv)
      intro W' vs ws hle hvs
      have henv' := henv.mono hle
      have hscopes : W'.Scopes Eq (⟨names, code, env⟩ : Closure Code)
          (⟨names, .body n' body', env'⟩ : Closure Source) :=
        ⟨List.forall₂_same.mpr fun _ _ => rfl, henv'.frames,
          fun a b hab => Or.inr (henv'.names a b hab)⟩
      change likeness.Runs W' likeness.Values
        (Run.extend env names vs >>= code.run (depth + 1)) _
      apply Likeness.Runs.bind (.extend rfl hscopes hvs)
      intro W'' inner inner' hle' hinner
      exact h.body hbody (Likeness.Values.mono_each (le_trans hle hle') hbody')
        ((hshifts.take hoperands.le).mono (le_trans hle hle')) hinner

theorem define_runs {name : Symbol} {a : Run Code Val} {b : Run Source Term}
    (hab : likeness.Runs W likeness.Values a b)
    {env env' : Env} (henv : W.Envs Eq env env') :
    likeness.Runs W likeness.Values (a >>= fun v => Run.define env name v >>= fun _ => pure v)
      (b >>= fun w => Run.define env' name w >>= fun _ => pure w) := by
  apply Likeness.Runs.bind hab
  intro W' v w hle hvw
  apply Likeness.Runs.bind (.define (henv.mono hle) rfl hvw)
  intro W'' _ _ hle' _
  exact .pure (hvw.mono hle')

theorem assign_runs {name : Symbol} {a : Run Code Val} {b : Run Source Term}
    (hab : likeness.Runs W likeness.Values a b)
    {env env' : Env} (henv : W.Envs Eq env env') :
    likeness.Runs W likeness.Values (a >>= fun v => Run.assign env name v >>= fun _ => pure v)
      (b >>= fun w => Run.assign env' name w >>= fun _ => pure w) := by
  apply Likeness.Runs.bind hab
  intro W' v w hle hvw
  apply Likeness.Runs.bind (.assign (henv.mono hle) rfl hvw)
  intro W'' _ _ hle' _
  exact .pure (hvw.mono hle')

/-- Without an alternative the code has a constant in its place, which depth zero does not reach. -/
theorem branchOnly (h : Agrees depth) {n k m n' : Identity} {test consequent : Val}
    {test' consequent' : Term} {t c : Code} {env env' : Env}
    (htest : Translates n test t k) (hconsequent : Translates k consequent c m)
    (htest' : likeness.Values W test test')
    (hconsequent' : likeness.Values W consequent consequent')
    (hshifts : W.Shifts n m n') (henv : W.Envs Eq env env') :
    likeness.Runs W likeness.Values ((Code.branch t c (.literal .undefined)).run (depth + 1) env)
      (eval depth n' test' env' >>= fun v =>
        if v.isTrue then eval depth (n' + test'.conds) consequent' env'
        else pure .undefined) := by
  have hk := htest.next_eq
  subst hk
  rw [← htest'.conds_eq]
  cases depth with
  | zero =>
      rw [eval]
      exact tooDeep_bind _ _
  | succ depth =>
      apply Likeness.Runs.bind (h.expression htest htest' (hshifts.take hconsequent.le) henv)
      intro W' v w hle hvw
      rw [hvw.isTrue_eq]
      split
      · exact h.expression hconsequent (hconsequent'.mono hle) ((hshifts.drop _).mono hle)
          (henv.mono hle)
      · exact .pure .undefined

theorem branch (h : Agrees depth) {n k l m n' : Identity} {test consequent alternative : Val}
    {test' consequent' alternative' : Term} {t c a : Code} {env env' : Env}
    (htest : Translates n test t k) (hconsequent : Translates k consequent c l)
    (halternative : Translates l alternative a m)
    (htest' : likeness.Values W test test')
    (hconsequent' : likeness.Values W consequent consequent')
    (halternative' : likeness.Values W alternative alternative')
    (hshifts : W.Shifts n m n') (henv : W.Envs Eq env env') :
    likeness.Runs W likeness.Values ((Code.branch t c a).run (depth + 1) env)
      (eval depth n' test' env' >>= fun v =>
        if v.isTrue then eval depth (n' + test'.conds) consequent' env'
        else eval depth (n' + test'.conds + consequent'.conds) alternative' env') := by
  have hk := htest.next_eq
  subst hk
  have hl := hconsequent.next_eq
  subst hl
  rw [← htest'.conds_eq, ← hconsequent'.conds_eq]
  apply Likeness.Runs.bind
    (h.expression htest htest' (hshifts.take (Nat.le_trans hconsequent.le halternative.le)) henv)
  intro W' v w hle hvw
  rw [hvw.isTrue_eq]
  split
  · exact h.expression hconsequent (hconsequent'.mono hle)
      (((hshifts.drop _).take halternative.le).mono hle) (henv.mono hle)
  · exact h.expression halternative (halternative'.mono hle) (((hshifts.drop _).drop _).mono hle)
      (henv.mono hle)

mutual

theorem expression_succ (h : Agrees depth) {n m n' : Identity} {e : Val} {e' : Term} {code : Code}
    {env env' : Env}
    (htranslates : Translates n e code m)
    (he : likeness.Values W e e')
    (hshifts : W.Shifts n m n') (henv : W.Envs Eq env env') :
    likeness.Runs W likeness.Values (code.run (depth + 1) env)
      (eval (depth + 1) n' e' env') := by
  match htranslates with
  | .constant hconstant =>
      rw [eval_constant depth n' (he.isConstant_eq.symm.trans hconstant)]
      exact .pure he
  | .reference =>
      cases he
      rw [eval_symbol]
      exact .lookup henv rfl
  | .application hhead hoperator hoperands =>
      cases he with
      | list _ hitems =>
          cases hitems with
          | cons hhead' hrest' =>
              rw [eval_application depth n' _ (hhead'.ofHead?_eq.symm.trans hhead)]
              have hk := hoperator.next_eq
              subst hk
              rw [← hhead'.conds_eq]
              apply Likeness.Runs.bind
                (h.expression hoperator hhead' (hshifts.take hoperands.le) henv)
              intro W' f g hle hfg
              apply Likeness.Runs.bind (h.each hoperands (Likeness.Values.mono_each hle hrest')
                ((hshifts.drop _).mono hle) (henv.mono hle))
              intro W'' vs ws hle' hvs
              apply Likeness.Runs.applyWith _ (hfg.mono hle') hvs
              intro c d vs ws hfrom hvs
              exact h.call hfrom hvs
  | .form hhead hform =>
      cases he with
      | list _ hitems =>
          cases hitems with
          | cons hhead' hrest' =>
              rw [eval_form depth n' _ (hhead'.ofHead?_eq.symm.trans hhead)]
              exact h.form_succ hform hrest' hshifts henv

theorem form_succ (h : Agrees depth) {n m n' : Identity} {keyword : Keyword} {items : List Val}
    {items' : List Term} {code : Code} {env env' : Env}
    (htranslates : TranslatesForm n keyword items code m)
    (hitems : List.Forall₂ (likeness.Values W) items items')
    (hshifts : W.Shifts n m n') (henv : W.Envs Eq env env') :
    likeness.Runs W likeness.Values (code.run (depth + 1) env)
      (evalForm depth n' keyword items' env') := by
  match htranslates with
  | .quote =>
      rcases hitems with _ | ⟨hdatum, ⟨⟩⟩
      rw [evalForm]
      exact .pure hdatum
  | .branchOnly htest hconsequent =>
      rcases hitems with _ | ⟨htest', _ | ⟨hconsequent', ⟨⟩⟩⟩
      rw [evalForm]
      exact h.branchOnly htest hconsequent htest' hconsequent' hshifts henv
  | .branch htest hconsequent halternative =>
      rcases hitems with _ | ⟨htest', _ | ⟨hconsequent', _ | ⟨halternative', ⟨⟩⟩⟩⟩
      rw [evalForm]
      exact h.branch htest hconsequent halternative htest' hconsequent' halternative' hshifts henv
  | .sequence hbody =>
      rw [evalForm]
      exact h.body_succ hbody hitems hshifts henv
  | .define hvalue =>
      rcases hitems with _ | ⟨⟨⟩, _ | ⟨hvalue', ⟨⟩⟩⟩
      rw [evalForm]
      exact define_runs (h.expression hvalue hvalue' hshifts henv) henv
  | .procedure hbody hdefined =>
      cases hitems with
      | cons htarget hbody' =>
          have hfrom := Code.From.body hbody hbody' hshifts
          rcases defined?_from _ htarget hdefined hfrom with ⟨procedure, hdefined', hfrom'⟩
          cases htarget
          rw [evalForm, hdefined']
          exact define_runs (h.source hfrom' henv) henv
  | .assign hvalue =>
      rcases hitems with _ | ⟨⟨⟩, _ | ⟨hvalue', ⟨⟩⟩⟩
      rw [evalForm]
      exact assign_runs (h.expression hvalue hvalue' hshifts henv) henv
  | .lambda hnames hbody =>
      rcases hitems with _ | ⟨_ | ⟨_, hparameters⟩, hbody'⟩
      rw [evalForm, ← Derived.parameterNames_eq hparameters, hnames]
      exact procedure (.body hbody hbody' hshifts) henv
  | .cond hclauses =>
      rw [evalForm]
      have hending : W.identities n n' := hshifts 0 (Nat.lt_of_succ_le hclauses.le)
      exact h.clauses_succ hclauses hitems hending (hshifts.drop 1) henv
  | .letForm hparts hbody hoperands =>
      rcases hitems with _ | ⟨_ | ⟨_, hbindings⟩, hbody'⟩
      rcases Derived.bindingParts_ok hbindings hparts with ⟨values', hparts', hvalues⟩
      rw [evalForm, hparts']
      exact h.letForm hbody hbody' hoperands hvalues hshifts henv

theorem body_succ (h : Agrees depth) {n m n' : Identity} {items : List Val}
    {items' : List Term} {code : Code} {env env' : Env}
    (htranslates : TranslatesBody n items code m)
    (hitems : List.Forall₂ (likeness.Values W) items items')
    (hshifts : W.Shifts n m n') (henv : W.Envs Eq env env') :
    likeness.Runs W likeness.Values (code.run (depth + 1) env)
      (evalBody (depth + 1) n' items' env') := by
  match htranslates with
  | .last he =>
      cases hitems with
      | cons he' hnone =>
          cases hnone
          rw [evalBody]
          exact h.expression_succ he he' hshifts henv
  | .cons he hes =>
      cases hitems with
      | cons he' hes' =>
          have hk := he.next_eq
          subst hk
          rw [evalBody, ← he'.conds_eq]
          · apply Likeness.Runs.bind (h.expression he he' (hshifts.take hes.le) henv)
            intro W' _ _ hle _
            exact h.body hes (Likeness.Values.mono_each hle hes') ((hshifts.drop _).mono hle)
              (henv.mono hle)
          · intro hnil
            subst hnil
            cases hes'
            cases hes

end

end Agrees

theorem agrees_succ {depth : Nat} (h : Agrees depth) : Agrees (depth + 1) := by
  constructor
  · exact h.expression_succ
  · exact h.body_succ
  · exact h.clauses_succ
  · intro W code source env env' hfrom henv
    cases hfrom with
    | body hbody hitems hshifts =>
        rw [enter]
        exact h.body_succ hbody hitems hshifts henv
    | curried hinner =>
        rw [enter]
        exact Agrees.procedure hinner henv

theorem agrees (depth : Nat) : Agrees depth := by
  induction depth with
  | zero => exact agrees_zero
  | succ depth ih => exact agrees_succ ih

/-- The code that analysis makes of an expression ends as the direct evaluation of the expression
does, from all matched stores, in all matched environments and nested equally deep.  The empty
lists that analysis has given out to the `cond` forms stand for those of the direct evaluator. -/
theorem run_endings (depth : Nat)
    {e : Val} {n m : Identity} {code : Code} (hcode : Code.analyze e n = .ok (code, m))
    {e' : Term} (he : likeness.Values W e e')
    {n' : Identity} (hshifts : W.Shifts n m n')
    {env env' : Env} (henv : W.Envs Eq env env')
    {s : Store Code} {t : Store Source} (hstores : likeness.Stores W s t) :
    likeness.Endings W likeness.Values s t (code.run depth env s) (eval depth n' e' env' t) :=
  (agrees depth).expression (Code.analyze_eq_ok_iff.mp hcode) he hshifts henv s t hstores

def localCond {β : Type} : Value β :=
  .list 0 [.symbol ⟨"let"⟩, .list 1 [.list 2 [.symbol ⟨"x"⟩, .bool false]],
    .list 3 [.symbol ⟨"cond"⟩, .list 4 [.symbol ⟨"x"⟩, .symbol ⟨"x"⟩]]]

def emptyStore {β : Type} : Store β where
  frames := #[{}]
  nextIdentity := 6

theorem run_endings_localCond :
    likeness.Endings (.on (fun f => f < 1) (fun i => i < 6)) likeness.Values emptyStore emptyStore
      ((Code.application (.lambda [⟨"x"⟩] (.branch (.reference ⟨"x"⟩) (.reference ⟨"x"⟩)
        (.literal (.list 5 [])))) [.literal (.bool false)]).run 4 ⟨0, []⟩ emptyStore)
      (eval 4 5 localCond ⟨0, []⟩ emptyStore) := by
  have hcode : Code.analyze localCond 5 = .ok (.application (.lambda [⟨"x"⟩]
      (.branch (.reference ⟨"x"⟩) (.reference ⟨"x"⟩) (.literal (.list 5 []))))
      [.literal (.bool false)], 6) :=
    Code.analyze_eq_ok_iff.mpr (.form rfl (.letForm rfl
      (.last (.form rfl (.cond (.cons .reference (.last .reference) .nil))))
      (.cons (.constant rfl) .nil)))
  have he : likeness.Values (.on (fun f => f < 1) (fun i => i < 6)) localCond localCond := by
    have hid : ∀ i, i < 6 → (Matching.on (fun f => f < 1) (fun i => i < 6)).identities i i :=
      fun i hi => ⟨rfl, hi⟩
    refine .list (hid 0 (by decide)) (.cons (.atom _) (.cons ?_ (.cons ?_ .nil)))
    · exact .list (hid 1 (by decide)) (.cons (.list (hid 2 (by decide))
        (.cons (.atom _) (.cons (.atom _) .nil))) .nil)
    · exact .list (hid 3 (by decide)) (.cons (.atom _) (.cons (.list (hid 4 (by decide))
        (.cons (.atom _) (.cons (.atom _) .nil))) .nil))
  have hstores : likeness.Stores (.on (fun f => f < 1) (fun i => i < 6)) emptyStore
      emptyStore := by
    constructor
    · intro f g hfg
      rcases hfg with ⟨rfl, hf⟩
      exact ⟨hf, hf⟩
    · intro i j hij
      rcases hij with ⟨rfl, hi⟩
      exact ⟨hi, hi⟩
    · exact Matching.on_biUnique _
    · exact Matching.on_biUnique _
    · intro f g _
      exact biUnique_eq
    · intro f g hfg
      rcases hfg with ⟨rfl, hf⟩
      have hzero : f = 0 := Nat.lt_one_iff.mp hf
      subst hzero
      exact Frame.matches_empty
    · intro f g m _ hm
      cases hm
  have hshifts : (Matching.on (fun f => f < 1) (fun i => i < 6)).Shifts 5 6 5 :=
    fun k hk => ⟨rfl, hk⟩
  have henv : (Matching.on (fun f => f < 1) (fun i => i < 6)).Envs Eq ⟨0, []⟩ ⟨0, []⟩ := by
    apply Matching.on_envs
    intro f hf
    cases hf with
    | head => exact Nat.zero_lt_one
    | tail _ hf => cases hf
  exact run_endings 4 hcode he hshifts henv hstores

end Direct
end MiniLisp
