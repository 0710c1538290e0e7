import MiniLisp.Proofs.Code.Quiet
import MiniLisp.Proofs.Code.Region
import MiniLisp.Proofs.Correspondence.Reach
import MiniLisp.Proofs.Host

/-!
# Nothing leads out of a host's store

Whatever a host does with what it has got is matched with itself.  So nothing that is bound in a
store that a host can reach, and nothing that the host has got from it, refers to a frame or to an
identity that is not there.

## Main statement

* `Host.intact_of_reaches`: the stores that hosts can reach are intact, and hold what has been got.
-/

namespace MiniLisp

open Code (sameness)

inductive Thing.Matches (W : Matching) : Thing → Thing → Prop where
  | value {v w} :
      sameness.Values W v w →
      Matches W (.value v) (.value w)
  | environment {env env'} :
      W.Envs Eq env env' →
      Matches W (.environment env) (.environment env')
  | code {c d} :
      Code.Alike .same W Eq c d →
      Matches W (.code c) (.code d)

namespace Thing.Matches

variable {W : Matching} {v w : Val} {env env' : Env} {c d : Code}

theorem of_value (h : Thing.Matches W (.value v) (.value w)) : sameness.Values W v w := by
  cases h with
  | value h => exact h

theorem of_environment (h : Thing.Matches W (.environment env) (.environment env')) :
    W.Envs Eq env env' := by
  cases h with
  | environment h => exact h

theorem of_code (h : Thing.Matches W (.code c) (.code d)) : Code.Alike .same W Eq c d := by
  cases h with
  | code h => exact h

theorem mono {W' : Matching} (hle : W ≤ W') {x y : Thing} (h : Thing.Matches W x y) :
    Thing.Matches W' x y := by
  cases h with
  | value h => exact .value (h.mono hle)
  | environment h => exact .environment (h.mono hle)
  | code h => exact .code (h.mono hle)

theorem forall₂_values {vs : List Val} (h : ∀ x ∈ vs.map Thing.value, Thing.Matches W x x) :
    List.Forall₂ (sameness.Values W) vs vs :=
  List.forall₂_same.mpr fun v hv => (h (.value v) (List.mem_map_of_mem hv)).of_value

end Thing.Matches

/-!
# Actions are matched with themselves
-/

namespace Action

open Likeness

variable {W : Matching}

theorem runs_value {a b : Run Code Val} (h : sameness.Runs W sameness.Values a b) :
    sameness.Runs W (fun W' => List.Forall₂ (Thing.Matches W'))
      (a >>= fun v => pure [.value v]) (b >>= fun v => pure [.value v]) := by
  apply Runs.bind h
  intro W' v w _ hvw
  exact .pure (.cons (.value hvw) .nil)

theorem runs_environment {a b : Run Code Env} (h : sameness.Runs W (fun W' => W'.Envs Eq) a b) :
    sameness.Runs W (fun W' => List.Forall₂ (Thing.Matches W'))
      (a >>= fun env => pure [.environment env]) (b >>= fun env => pure [.environment env]) := by
  apply Runs.bind h
  intro W' env env' _ henv
  exact .pure (.cons (.environment henv) .nil)

theorem runs_nothing {a b : Run Code Unit} (h : sameness.Runs W (fun _ => Eq) a b) :
    sameness.Runs W (fun W' => List.Forall₂ (Thing.Matches W'))
      (a >>= fun _ => pure []) (b >>= fun _ => pure []) := by
  apply Runs.bind h
  intro W' _ _ _ _
  exact .pure .nil

theorem perform_runs (depth : Nat) (action : Action)
    (huses : ∀ x ∈ action.uses, Thing.Matches W x x) :
    sameness.Runs W (fun W' => List.Forall₂ (Thing.Matches W')) (action.perform depth)
      (action.perform depth) := by
  have hsame : Eq ∈ sameness.namings.relations := Code.eq_mem_sameness
  cases action with
  | newEnv => exact runs_environment (.newEnv hsame)
  | extend env ps vs =>
      have henv := (huses _ (.head _)).of_environment
      let closure : Closure Code := ⟨ps, .literal .undefined, env⟩
      have hscopes : W.Scopes Eq closure closure :=
        ⟨List.forall₂_same.mpr fun _ _ => rfl, henv.frames,
          fun m n hmn => .inr (henv.names m n hmn)⟩
      have hvs := Thing.Matches.forall₂_values fun x hx => huses x (.tail _ hx)
      have hextend := Runs.extend (L := sameness) hsame hscopes hvs
      exact runs_environment hextend
  | define env name v =>
      have henv := (huses _ (.head _)).of_environment
      exact runs_nothing (.define henv rfl (huses _ (.tail _ (.head _))).of_value)
  | assign env name v =>
      have henv := (huses _ (.head _)).of_environment
      exact runs_nothing (.assign henv rfl (huses _ (.tail _ (.head _))).of_value)
  | lookup env name => exact runs_value (.lookup (huses _ (.head _)).of_environment rfl)
  | read d => exact runs_value (.makeValue sameness W d)
  | list items => exact runs_value (.makeList (Thing.Matches.forall₂_values huses))
  | procedure ps body env =>
      have hbody := (huses _ (.head _)).of_code
      have henv := (huses _ (.tail _ (.head _))).of_environment
      apply Runs.bind .fresh
      intro W' i j hle hij
      refine .pure (.cons (.value (.procedure hij (.intro hsame ?_ (hbody.mono hle)))) .nil)
      have henv' := henv.mono hle
      exact ⟨List.forall₂_same.mpr fun _ _ => rfl, henv'.frames,
        fun m n hmn => .inr (henv'.names m n hmn)⟩
  | analyze e =>
      apply Runs.bind (.analyze (huses _ (.head _)).of_value)
      intro W' code code' _ hcode
      exact .pure (.cons (.code hcode) .nil)
  | run code env =>
      have henv := (huses _ (.tail _ (.head _))).of_environment
      exact runs_value ((huses _ (.head _)).of_code.runs depth hsame henv)
  | evaluate e env =>
      have henv := (huses _ (.tail _ (.head _))).of_environment
      exact runs_value (evaluate_runs depth (huses _ (.head _)).of_value henv)
  | apply f vs =>
      have hvs := Thing.Matches.forall₂_values fun x hx => huses x (.tail _ hx)
      exact runs_value (.applyWith (fun _ _ _ _ halike hvs => Code.call_runs depth halike hvs)
        (huses _ (.head _)).of_value hvs)

end Action

/-!
# Hosts stay within their stores
-/

def Thing.Within (s : Store Code) : Thing → Prop
  | .value v => s.Holds v
  | .environment env => env.Within s
  | .code c => c.Within (fun f => f < s.frames.size) (fun i => i < s.nextIdentity)

structure Host.Intact (h : Host) : Prop where
  store : h.store.Intact
  held : ∀ x ∈ h.held, x.Within h.store

theorem Thing.Within.matches_self {s : Store Code} {x : Thing} (h : x.Within s) :
    Thing.Matches s.self x x := by
  have hsame : Eq ∈ Namings.same.relations := rfl
  cases x with
  | value v => exact .value (Value.Within.matches_self hsame h)
  | environment env => exact .environment (Matching.on_envs h)
  | code c => exact .code (Code.Within.alike_self hsame h)

theorem Thing.Matches.within {W : Matching} {s t : Store Code} (hstores : sameness.Stores W s t)
    {x y : Thing} (h : Thing.Matches W x y) :
    x.Within s := by
  have hframes : ∀ {f g}, W.frames f g → f < s.frames.size := fun hfg => (hstores.frames_lt hfg).1
  have hids : ∀ {i j}, W.identities i j → i < s.nextIdentity :=
    fun hij => (hstores.identities_lt hij).1
  cases h with
  | value h => exact Code.within_of_matches hframes hids h
  | environment h =>
      intro f hf
      rcases List.mem_iff_getElem.mp hf with ⟨k, hk, rfl⟩
      exact hframes (h.frames.get hk (h.frames.length_eq ▸ hk))
  | code h => exact Code.within_of_alike hframes hids h

theorem Value.AllWithin.of_mem {frames : FrameId → Prop} {identities : Identity → Prop}
    {vs : List Val} (h : Value.AllWithin frames identities vs) :
    ∀ v ∈ vs, v.Within frames identities := by
  intro v hv
  induction vs with
  | nil => cases hv
  | cons w vs ih =>
      rcases List.mem_cons.mp hv with rfl | hv
      · exact h.1
      · exact ih h.2 hv

namespace Host

variable {h h' : Host}

theorem Intact.has (hintact : h.Intact) {x : Thing} (hx : h.Has x) : x.Within h.store := by
  induction hx with
  | held hmem => exact hintact.held _ hmem
  | atom | primitive | undefined => exact trivial
  | item _ hmem ih => exact Value.AllWithin.of_mem ih.2 _ hmem
  | body _ ih => exact ih.2.2
  | env _ ih => exact ih.2.1

theorem Intact.step (hintact : h.Intact) (hstep : h.Step h') : h'.Intact := by
  have hends : ∀ {depth : Nat} {action : Action} {r : Except Fault (List Thing)}
      {t : Store Code}, (∀ x ∈ action.uses, h.Has x) →
      action.perform depth h.store = some (r, t) →
      t.Intact ∧ (∀ x ∈ h.held, x.Within t) ∧
        ∀ things, r = .ok things → ∀ x ∈ things, x.Within t := by
    intro depth action r t huses hperform
    have hruns := action.perform_runs depth fun x hx => (hintact.has (huses x hx)).matches_self
    have hends := hruns h.store h.store (hintact.store.stores_self Code.eq_mem_sameness)
    rw [hperform] at hends
    cases hends with
    | value hgrows hstores hthings =>
        refine ⟨.of_grows hgrows hstores, ?_, ?_⟩
        · exact fun x hx => ((hintact.held x hx).matches_self.mono hgrows.le).within hstores
        · rintro _ ⟨⟩ x hx
          rcases exists_mem_of_forall₂ hthings hx with ⟨y, _, hxy⟩
          exact hxy.within hstores
    | fault hgrows hstores =>
        refine ⟨.of_grows hgrows hstores, ?_, nofun⟩
        exact fun x hx => ((hintact.held x hx).matches_self.mono hgrows.le).within hstores
  cases hstep with
  | got _ _ huses hperform =>
      rcases hends huses hperform with ⟨hstore, hheld, hthings⟩
      refine ⟨hstore, fun x hx => ?_⟩
      rcases List.mem_append.mp hx with hx | hx
      · exact hthings _ rfl x hx
      · exact hheld x hx
  | failed _ _ huses hperform =>
      rcases hends huses hperform with ⟨hstore, hheld, _⟩
      exact ⟨hstore, hheld⟩

theorem intact_of_reaches (hreach : Relation.ReflTransGen Host.Step {} h) : h.Intact := by
  induction hreach with
  | refl => exact ⟨⟨fun _ hf => hf, fun _ hi => hi, nofun⟩, nofun⟩
  | tail _ hstep ih => exact ih.step hstep

end Host
end MiniLisp
