import MiniLisp.Proofs.Code.Captures
import MiniLisp.Proofs.Store.Bindings

/-!
# Which frame was made inside which

Each frame is made inside another one or outside all others, and stays there.  A store is well
formed if that is so of its frames, the older ones being outside, and if every environment that its
values lead to is a frame with all frames outside it.

## Main statements

* `Lineage.outward_of_chain`: going outward from a frame comes to an end.
* `Store.WellFormed.bind`, `Store.WellFormed.newEnv`, `Store.WellFormed.extend`: the operations keep
  a store well formed.
-/

namespace MiniLisp

theorem getElem?_append_of_eq_some {α : Type} {xs : List α} {i : Nat} {x : α}
    (h : xs[i]? = some x) (added : List α) :
    (xs ++ added)[i]? = some x := by
  rw [List.getElem?_append_left (List.getElem?_eq_some_iff.mp h).1]
  exact h

/-- For each frame, the frame that it was made inside, if any. -/
abbrev Lineage :=
  List (Option FrameId)

namespace Lineage

def Inside (parents : Lineage) (f g : FrameId) : Prop :=
  parents[f]? = some (some g)

/-- A frame with all frames outside it, from the inside out. -/
inductive Chain (parents : Lineage) : List FrameId → Prop where
  | root {f} :
      parents[f]? = some none →
      Chain parents [f]
  | inner {f g rest} :
      parents.Inside f g →
      Chain parents (g :: rest) →
      Chain parents (f :: g :: rest)

def Older (parents : Lineage) : Prop :=
  ∀ f g, parents.Inside f g → g < f

/-- What is met on the way outward from a frame, if the way ends within some number of frames. -/
def outward (parents : Lineage) : Nat → FrameId → Option (List FrameId)
  | 0, _ => none
  | steps + 1, f =>
      match parents[f]? with
      | some none => some [f]
      | some (some g) => (outward parents steps g).map (f :: ·)
      | none => none

variable {parents : Lineage} {f g : FrameId} {chain : List FrameId}

/-!
# More frames
-/

theorem Chain.append (h : parents.Chain chain) (added : Lineage) :
    Chain (parents ++ added) chain := by
  induction h with
  | root hroot => exact .root (getElem?_append_of_eq_some hroot added)
  | inner hinside _ ih => exact .inner (getElem?_append_of_eq_some hinside added) ih

theorem Chain.lt_length (h : parents.Chain chain) :
    ∀ f ∈ chain, f < parents.length := by
  induction h with
  | root hroot =>
      intro f hf
      rw [List.mem_singleton.mp hf]
      exact (List.getElem?_eq_some_iff.mp hroot).1
  | inner hinside _ ih =>
      intro f hf
      cases hf with
      | head => exact (List.getElem?_eq_some_iff.mp hinside).1
      | tail _ hf => exact ih f hf

theorem chain_append_self {env : Env} (h : parents.Chain env.chain) :
    Chain (parents ++ [some env.innermost]) (parents.length :: env.chain) := by
  refine .inner ?_ (h.append [some env.innermost])
  exact List.getElem?_concat_length

theorem Older.concat (h : parents.Older) {parent : Option FrameId}
    (hparent : ∀ g, parent = some g → g < parents.length) :
    Older (parents ++ [parent]) := by
  intro f g hfg
  unfold Inside at hfg
  by_cases hf : f < parents.length
  · rw [List.getElem?_append_left hf] at hfg
    exact h f g hfg
  · have hlength : f = parents.length := by
      have hlt := (List.getElem?_eq_some_iff.mp hfg).1
      rw [List.length_append, List.length_singleton] at hlt
      exact Nat.le_antisymm (Nat.le_of_lt_succ hlt) (Nat.le_of_not_lt hf)
    rw [hlength, List.getElem?_concat_length] at hfg
    rw [hlength]
    exact hparent g (Option.some.inj hfg)

/-!
# No way outward goes on for ever
-/

theorem Older.lt_of_transGen (h : parents.Older) (hfg : Relation.TransGen parents.Inside f g) :
    g < f := by
  induction hfg with
  | single hinside => exact h _ _ hinside
  | tail _ hinside ih => exact (h _ _ hinside).trans ih

/-- Going outward from a frame, as far as there is one, meets its chain. -/
theorem outward_of_chain (h : parents.Older) {rest : List FrameId}
    (hchain : parents.Chain (f :: rest)) {steps : Nat} (hsteps : f < steps) :
    parents.outward steps f = some (f :: rest) := by
  induction steps generalizing f rest with
  | zero => cases hsteps
  | succ steps ih =>
      cases hchain with
      | root hroot =>
          unfold outward
          rw [hroot]
      | inner hinside hrest =>
          have hnext := ih hrest ((h _ _ hinside).trans_le (Nat.le_of_lt_succ hsteps))
          unfold Inside at hinside
          unfold outward
          simp only [hinside, hnext]
          rfl

theorem Chain.exists_root {rest : List FrameId} (hchain : parents.Chain (f :: rest)) :
    ∃ root, parents[root]? = some none ∧ Relation.ReflTransGen parents.Inside f root := by
  induction rest generalizing f with
  | nil =>
      cases hchain with
      | root hroot => exact ⟨f, hroot, .refl⟩
  | cons g rest ih =>
      cases hchain with
      | inner hinside hrest =>
          rcases ih hrest with ⟨root, hroot, hpath⟩
          exact ⟨root, hroot, hpath.head hinside⟩

theorem Older.exists_chain (h : parents.Older) (hf : f < parents.length) :
    ∃ rest, parents.Chain (f :: rest) := by
  induction f using Nat.strong_induction_on with
  | h f ih =>
      cases hparent : parents[f] with
      | none =>
          refine ⟨[], .root ?_⟩
          rw [List.getElem?_eq_getElem hf, hparent]
      | some g =>
          have hinside : parents.Inside f g := by
            unfold Inside
            rw [List.getElem?_eq_getElem hf, hparent]
          have hg := h f g hinside
          rcases ih g hg (hg.trans hf) with ⟨rest, hrest⟩
          exact ⟨g :: rest, .inner hinside hrest⟩

end Lineage

/-- Whether every environment that a value leads to is a frame with all frames outside it. -/
def Value.Rooted (parents : Lineage) (v : Val) : Prop :=
  ∀ env, v.Captures env → parents.Chain env.chain

def Code.Rooted (parents : Lineage) (code : Code) : Prop :=
  ∀ env, code.Captures env → parents.Chain env.chain

theorem Value.Rooted.append {parents : Lineage} {v : Val} (h : v.Rooted parents)
    (added : Lineage) :
    v.Rooted (parents ++ added) :=
  fun env henv => (h env henv).append added

theorem Code.Rooted.append {parents : Lineage} {code : Code} (h : code.Rooted parents)
    (added : Lineage) :
    code.Rooted (parents ++ added) :=
  fun env henv => (h env henv).append added

/-- Each frame was made inside the frame that the lineage says, which is older, and everything that
frames bind leads to such frames only. -/
structure Store.WellFormed (parents : Lineage) (s : Store Code) : Prop where
  length_eq : parents.length = s.frames.size
  older : parents.Older
  bindings : ∀ f x v, s.find? f x = some v → v.Rooted parents

namespace Store.WellFormed

variable {parents : Lineage} {s : Store Code}

theorem empty : ({} : Store Code).WellFormed [] where
  length_eq := rfl
  older := nofun
  bindings := nofun

theorem allBound (hs : s.WellFormed parents) : s.AllBound (Value.Rooted parents) :=
  hs.bindings

theorem of_frames_eq {t : Store Code} (hs : s.WellFormed parents) (h : t.frames = s.frames) :
    t.WellFormed parents := by
  refine ⟨?_, hs.older, hs.allBound.of_frames_eq h⟩
  rw [h]
  exact hs.length_eq

theorem bind (hs : s.WellFormed parents) {v : Val} (hv : v.Rooted parents) (f : FrameId)
    (name : Symbol) :
    (s.bind f name v).WellFormed parents := by
  refine ⟨?_, hs.older, hs.allBound.bind hv f name⟩
  rw [size_bind]
  exact hs.length_eq

theorem push (hs : s.WellFormed parents) {F : Frame Code} {parent : Option FrameId}
    (hparent : ∀ g, parent = some g → g < parents.length)
    (hbound : (s.push F).2.AllBound (Value.Rooted parents)) :
    (s.push F).2.WellFormed (parents ++ [parent]) := by
  refine ⟨?_, hs.older.concat hparent, hbound.mono fun v hv => hv.append [parent]⟩
  rw [size_push, List.length_append, hs.length_eq, List.length_singleton]

theorem newEnv (hs : s.WellFormed parents) :
    s.newEnv.2.WellFormed (parents ++ [none]) ∧
      Lineage.Chain (parents ++ [none]) s.newEnv.1.chain := by
  refine ⟨hs.push nofun hs.allBound.newEnv, .root ?_⟩
  change (parents ++ [none])[s.frames.size]? = some none
  rw [← hs.length_eq]
  exact List.getElem?_concat_length

theorem extend (hs : s.WellFormed parents) {env : Env} (henv : parents.Chain env.chain)
    {vs : List Val} (hvs : ∀ v ∈ vs, v.Rooted parents) (ps : List Symbol) :
    (s.extend env ps vs).2.WellFormed (parents ++ [some env.innermost]) ∧
      Lineage.Chain (parents ++ [some env.innermost]) (s.extend env ps vs).1.chain := by
  constructor
  · have hundefined : Value.Rooted parents .undefined :=
      fun outer houter => absurd houter Value.not_captures_undefined
    refine hs.push ?_ (hs.allBound.extend hvs hundefined env ps)
    intro g hg
    cases hg
    exact henv.lt_length _ (.head _)
  · change Lineage.Chain _ (s.frames.size :: env.chain)
    rw [← hs.length_eq]
    exact Lineage.chain_append_self henv

theorem lookup? (hs : s.WellFormed parents) {env : Env} {name : Symbol} {v : Val}
    (h : s.lookup? env name = some v) :
    v.Rooted parents :=
  hs.allBound.lookup? h

end Store.WellFormed
end MiniLisp
