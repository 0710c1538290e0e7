import MiniLisp.Proofs.Correspondence.Operations

/-!
# Alike code

Two pieces of code are alike if they have the same shape, hold matched values, and use names that
are matched: by `ρ` in the code itself, and by some member of `N` in each procedure that it holds.
Running alike code in matched environments is matched.
-/

namespace MiniLisp

mutual

inductive Code.Alike (N : Namings) (W : Matching) :
    (Symbol → Symbol → Prop) → Code → Code → Prop where
  | literal {ρ v w} :
      Value.Matches W.identities (Closure.Alike N W) v w →
      Code.Alike N W ρ (.literal v) (.literal w)
  | reference {ρ m n} :
      ρ m n →
      Code.Alike N W ρ (.reference m) (.reference n)
  | branch {ρ test test' consequent consequent' alternative alternative'} :
      Code.Alike N W ρ test test' →
      Code.Alike N W ρ consequent consequent' →
      Code.Alike N W ρ alternative alternative' →
      Code.Alike N W ρ (.branch test consequent alternative)
        (.branch test' consequent' alternative')
  | andThen {ρ first first' second second'} :
      Code.Alike N W ρ first first' →
      Code.Alike N W ρ second second' →
      Code.Alike N W ρ (.andThen first second) (.andThen first' second')
  | application {ρ operator operator' operands operands'} :
      Code.Alike N W ρ operator operator' →
      Code.AlikeEach N W ρ operands operands' →
      Code.Alike N W ρ (.application operator operands) (.application operator' operands')
  | define {ρ m n value value'} :
      ρ m n →
      Code.Alike N W ρ value value' →
      Code.Alike N W ρ (.define m value) (.define n value')
  | assign {ρ m n value value'} :
      ρ m n →
      Code.Alike N W ρ value value' →
      Code.Alike N W ρ (.assign m value) (.assign n value')
  | lambda {ρ ps qs body body'} :
      List.Forall₂ ρ ps qs →
      Code.Alike N W ρ body body' →
      Code.Alike N W ρ (.lambda ps body) (.lambda qs body')

inductive Code.AlikeEach (N : Namings) (W : Matching) :
    (Symbol → Symbol → Prop) → List Code → List Code → Prop where
  | nil {ρ} : Code.AlikeEach N W ρ [] []
  | cons {ρ c d cs ds} :
      Code.Alike N W ρ c d →
      Code.AlikeEach N W ρ cs ds →
      Code.AlikeEach N W ρ (c :: cs) (d :: ds)

inductive Closure.Alike (N : Namings) (W : Matching) :
    Closure Code → Closure Code → Prop where
  | intro {ρ ps qs body body' env env'} :
      ρ ∈ N.relations →
      W.Scopes ρ (⟨ps, body, env⟩ : Closure Code) (⟨qs, body', env'⟩ : Closure Code) →
      Code.Alike N W ρ body body' →
      Closure.Alike N W ⟨ps, body, env⟩ ⟨qs, body', env'⟩

end

namespace Code

variable {N : Namings} {W W' : Matching}

/-!
# More matched frames and identities

Code that is alike stays so when the matching grows.
-/

mutual

theorem Alike.mono (hle : W ≤ W') {ρ : Symbol → Symbol → Prop} {c d : Code}
    (h : Alike N W ρ c d) :
    Alike N W' ρ c d := by
  cases h with
  | literal hv => exact .literal (matches_mono hle hv)
  | reference hmn => exact .reference hmn
  | branch ht hc ha => exact .branch (Alike.mono hle ht) (Alike.mono hle hc) (Alike.mono hle ha)
  | andThen hfirst hsecond => exact .andThen (Alike.mono hle hfirst) (Alike.mono hle hsecond)
  | application hf hxs => exact .application (Alike.mono hle hf) (AlikeEach.mono hle hxs)
  | define hmn hv => exact .define hmn (Alike.mono hle hv)
  | assign hmn hv => exact .assign hmn (Alike.mono hle hv)
  | lambda hps hbody => exact .lambda hps (Alike.mono hle hbody)
termination_by structural c

theorem AlikeEach.mono (hle : W ≤ W') {ρ : Symbol → Symbol → Prop} {cs ds : List Code}
    (h : AlikeEach N W ρ cs ds) :
    AlikeEach N W' ρ cs ds := by
  cases h with
  | nil => exact .nil
  | cons hc hcs => exact .cons (Alike.mono hle hc) (AlikeEach.mono hle hcs)
termination_by structural cs

theorem matches_mono (hle : W ≤ W') {v w : Val}
    (h : Value.Matches W.identities (Closure.Alike N W) v w) :
    Value.Matches W'.identities (Closure.Alike N W') v w := by
  cases h with
  | atom a => exact .atom a
  | list hid hitems => exact .list (hle.identities hid) (matches_mono_each hle hitems)
  | primitive p => exact .primitive p
  | procedure hid halike =>
      cases halike with
      | intro hρ hscopes hbody =>
          exact .procedure (hle.identities hid)
            (.intro hρ (hscopes.mono hle) (Alike.mono hle hbody))
  | undefined => exact .undefined
termination_by structural v

theorem matches_mono_each (hle : W ≤ W') {vs ws : List Val}
    (h : List.Forall₂ (Value.Matches W.identities (Closure.Alike N W)) vs ws) :
    List.Forall₂ (Value.Matches W'.identities (Closure.Alike N W')) vs ws := by
  cases h with
  | nil => exact .nil
  | cons hv hvs => exact .cons (matches_mono hle hv) (matches_mono_each hle hvs)
termination_by structural vs

end

theorem AlikeEach.forall₂ {ρ : Symbol → Symbol → Prop} {cs ds : List Code}
    (h : AlikeEach N W ρ cs ds) :
    List.Forall₂ (Alike N W ρ) cs ds := by
  induction cs generalizing ds with
  | nil =>
      cases h with
      | nil => exact .nil
  | cons c cs ih =>
      cases h with
      | cons hc hcs => exact .cons hc (ih hcs)

def likeness (N : Namings) : Likeness Code Code where
  namings := N
  alike := Closure.Alike N
  mono hle h := by
    cases h with
    | intro hρ hscopes hbody => exact .intro hρ (hscopes.mono hle) (hbody.mono hle)

/-!
# Running alike code
-/

theorem call_runs_of_runs {depth : Nat}
    (hruns : ∀ {W : Matching} {ρ : Symbol → Symbol → Prop} {c d : Code} {env env' : Env},
      ρ ∈ N.relations → Alike N W ρ c d → W.Envs ρ env env' →
      (likeness N).Runs W (likeness N).Values (c.run depth env) (d.run depth env'))
    {c d : Closure Code} (halike : Closure.Alike N W c d)
    {vs ws : List Val} (hvs : List.Forall₂ ((likeness N).Values W) vs ws) :
    (likeness N).Runs W (likeness N).Values
      (Run.extend c.env c.parameters vs >>= c.body.run depth)
      (Run.extend d.env d.parameters ws >>= d.body.run depth) := by
  cases halike with
  | intro hρ hscopes hbody =>
      apply Likeness.Runs.bind (.extend hρ hscopes hvs)
      intro W' inner inner' hle hinner
      exact hruns hρ (hbody.mono hle) hinner

theorem Alike.runs (depth : Nat)
    {ρ : Symbol → Symbol → Prop} (hρ : ρ ∈ N.relations)
    {c d : Code} (hcode : Alike N W ρ c d)
    {env env' : Env} (henv : W.Envs ρ env env') :
    (likeness N).Runs W (likeness N).Values (c.run depth env) (d.run depth env') := by
  induction depth generalizing W ρ c d env env' with
  | zero => exact .tooDeep
  | succ depth ih =>
      cases hcode with
      | literal hv => exact .pure hv
      | reference hmn => exact .lookup henv hmn
      | branch htest hconsequent halternative =>
          apply Likeness.Runs.bind (ih hρ htest henv)
          intro W' v w hle hvw
          rw [hvw.isTrue_eq]
          split
          · exact ih hρ (hconsequent.mono hle) (henv.mono hle)
          · exact ih hρ (halternative.mono hle) (henv.mono hle)
      | andThen hfirst hsecond =>
          apply Likeness.Runs.bind (ih hρ hfirst henv)
          intro W' _ _ hle _
          exact ih hρ (hsecond.mono hle) (henv.mono hle)
      | application hoperator hoperands =>
          apply Likeness.Runs.bind (ih hρ hoperator henv)
          intro W' f g hle hfg
          have hoperands' := (hoperands.mono hle).forall₂
          apply Likeness.Runs.bind
            (Likeness.Runs.mapM (r := fun W c d => Alike N W ρ c d ∧ W.Envs ρ env env')
              (fun hle h => ⟨h.1.mono hle, h.2.mono hle⟩) (fun hle h => h.mono hle)
              (fun W' c d _ h => ih hρ h.1 h.2)
              (hoperands'.imp fun _ _ h => ⟨h, henv.mono hle⟩))
          intro W'' vs ws hle' hvs
          apply Likeness.Runs.applyWith _ (hfg.mono hle') hvs
          intro c d vs ws halike hvs
          exact call_runs_of_runs (fun hρ hcode henv => ih hρ hcode henv) halike hvs
      | define hmn hvalue =>
          apply Likeness.Runs.bind (ih hρ hvalue henv)
          intro W' v w hle hvw
          apply Likeness.Runs.bind (.define (henv.mono hle) hmn hvw)
          intro W'' _ _ hle' _
          exact .pure (hvw.mono hle')
      | assign hmn hvalue =>
          apply Likeness.Runs.bind (ih hρ hvalue henv)
          intro W' v w hle hvw
          apply Likeness.Runs.bind (.assign (henv.mono hle) hmn hvw)
          intro W'' _ _ hle' _
          exact .pure (hvw.mono hle')
      | lambda hparameters hbody =>
          apply Likeness.Runs.bind .fresh
          intro W' i j hle hij
          have henv' := henv.mono hle
          apply Likeness.Runs.pure
          apply Value.Matches.procedure hij
          exact .intro hρ
            ⟨hparameters, henv'.frames, fun m n hmn => Or.inr (henv'.names m n hmn)⟩
            (hbody.mono hle)

theorem call_runs (depth : Nat)
    {c d : Closure Code} (halike : Closure.Alike N W c d)
    {vs ws : List Val} (hvs : List.Forall₂ ((likeness N).Values W) vs ws) :
    (likeness N).Runs W (likeness N).Values
      (Run.extend c.env c.parameters vs >>= c.body.run depth)
      (Run.extend d.env d.parameters ws >>= d.body.run depth) :=
  call_runs_of_runs (fun hρ hcode henv => hcode.runs depth hρ henv) halike hvs

end Code
end MiniLisp
