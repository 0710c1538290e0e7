import MiniLisp.Proofs.Correspondence.Analysis
import MiniLisp.Toplevel

/-!
# Matched top levels

Making a top level, evaluating an expression and evaluating a text are matched with themselves: from
any two matched stores they end alike, on matched top levels and expressions.
-/

namespace MiniLisp
namespace Likeness.Runs

variable {W : Matching}

theorem newEnv {β γ : Type} {L : Likeness β γ} (hsame : Eq ∈ L.namings.relations) :
    L.Runs W (fun W' => W'.Envs Eq) Run.newEnv Run.newEnv := by
  intro s t hstores
  have hnew := hstores.not_frames_size_left
  apply Likeness.Endings.value (.push hnew hsame [] {} {})
  · exact hstores.push biUnique_eq Frame.matches_empty nofun
  · constructor
    · exact .cons (Or.inr ⟨rfl, rfl⟩) .nil
    · intro m n hmn
      refine ⟨?_, Or.inr hmn⟩
      change (W.withFrame s.frames.size t.frames.size Eq []).names s.frames.size m n
      rw [Matching.withFrame_names]
      exact hmn

theorem forM {β γ ι : Type} {L : Likeness β γ} {W : Matching} {f : ι → Run β Unit}
    {g : ι → Run γ Unit} (hfg : ∀ {W'}, W ≤ W' → ∀ x, L.Runs W' (fun _ => Eq) (f x) (g x))
    (xs : List ι) :
    L.Runs W (fun _ => Eq) (xs.forM f) (xs.forM g) := by
  induction xs generalizing W with
  | nil => exact .pure rfl
  | cons x xs ih =>
      apply bind (hfg (le_refl W) x)
      intro W' _ _ hle _
      exact ih fun hle' => hfg (hle.trans hle')

end Likeness.Runs

abbrev Code.sameness : Likeness Code Code :=
  Code.likeness .same

open Code (sameness)

theorem Code.eq_mem_sameness : Eq ∈ sameness.namings.relations :=
  rfl

def Toplevel.Matches (W : Matching) (top top' : Toplevel) : Prop :=
  W.Envs Eq top.global top'.global

theorem evaluate_runs {W : Matching} (depth : Nat) {e e' : Val} (he : sameness.Values W e e')
    {env env' : Env} (henv : W.Envs Eq env env') :
    sameness.Runs W sameness.Values (evaluate depth e env) (evaluate depth e' env') := by
  apply Likeness.Runs.bind (.analyze he)
  intro W' code code' hle hcode
  exact hcode.runs depth Code.eq_mem_sameness (henv.mono hle)

namespace Toplevel

variable {W : Matching}

theorem Matches.mono {W' : Matching} (hle : W ≤ W') {top top' : Toplevel}
    (h : Matches W top top') :
    Matches W' top top' :=
  Matching.Envs.mono hle h

theorem bindPrimitives_runs {env env' : Env} (henv : W.Envs Eq env env') :
    sameness.Runs W (fun _ => Eq) (bindPrimitives env) (bindPrimitives env') := by
  apply Likeness.Runs.forM
  intro W' hle p
  exact .define (henv.mono hle) rfl (.primitive p)

theorem new_runs : sameness.Runs W Matches new new := by
  apply Likeness.Runs.bind (.newEnv Code.eq_mem_sameness)
  intro W' env env' _ henv
  apply Likeness.Runs.bind (bindPrimitives_runs henv)
  intro W'' _ _ hle _
  exact .pure (Matching.Envs.mono hle henv)

variable (depth : Nat) {top top' : Toplevel}

theorem evalDatum_runs (htop : Matches W top top') (d : Datum) :
    sameness.Runs W sameness.Values (top.evalDatum depth d) (top'.evalDatum depth d) := by
  apply Likeness.Runs.bind (.makeValue sameness W d)
  intro W' e e' hle he
  exact evaluate_runs depth he (Matching.Envs.mono hle htop)

theorem evalFirst_runs (htop : Matches W top top') (text : List Char) :
    sameness.Runs W sameness.Values (top.evalFirst depth text) (top'.evalFirst depth text) := by
  have hread : sameness.Runs W (fun _ => Eq) (Run.ofExcept (Reading.first text))
      (Run.ofExcept (Reading.first text)) := by
    apply Likeness.Runs.ofExcept
    cases Reading.first text with
    | ok d => exact .ok rfl
    | error cause => exact .error cause
  apply Likeness.Runs.bind hread
  intro W' d d' hle hd
  subst hd
  exact evalDatum_runs depth (htop.mono hle) d

theorem evalEach_runs (htop : Matches W top top') {last last' : Val}
    (hlast : sameness.Values W last last') (ds : List Datum) :
    sameness.Runs W sameness.Values (top.evalEach depth last ds)
      (top'.evalEach depth last' ds) := by
  induction ds generalizing W last last' with
  | nil => exact .pure hlast
  | cons d rest ih =>
      apply Likeness.Runs.bind (evalDatum_runs depth htop d)
      intro W' v v' hle hv
      exact ih (htop.mono hle) hv

theorem evalText_runs (htop : Matches W top top') (text : List Char) :
    sameness.Runs W sameness.Values (top.evalText depth text) (top'.evalText depth text) := by
  unfold evalText
  generalize Reading.forms text = forms
  rcases forms with ⟨ds, cause⟩
  apply Likeness.Runs.bind (evalEach_runs depth htop .undefined ds)
  intro W' last last' _ hlast
  cases cause with
  | none => exact .pure hlast
  | some cause => exact .fail cause

theorem withLibrary_runs :
    sameness.Runs W Matches (withLibrary depth) (withLibrary depth) := by
  apply Likeness.Runs.bind new_runs
  intro W' top top' _ htop
  apply Likeness.Runs.bind (evalFirst_runs depth htop ListLibrary.text)
  intro W'' _ _ hle _
  exact .pure (htop.mono hle)

end Toplevel
end MiniLisp
