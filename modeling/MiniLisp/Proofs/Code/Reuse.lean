import MiniLisp.Proofs.Code.Region

/-!
# Running the same code again

Code keeps nothing from one run to the next.  The same code, run in two environments that differ
only in where things are, ends the same way in both, whatever it was run in before.

## Main statement

* `Code.endings_after_runsElsewhere`: runs of the same code in matched environments are matched,
  after any runs of it in other parts of either store.
-/

namespace MiniLisp

/-- Runs of code elsewhere: each is in an environment within a closed region of the store, and if
the region has some of the frames that are kept, the run leaves those as they are. -/
inductive Code.RunsElsewhere (code : Code) (kept : FrameId → Prop) :
    Store Code → Store Code → Prop where
  | none (s) : RunsElsewhere code kept s s
  | run {s s' s'' frames identities env depth result} :
      s.Closed frames identities →
      code.Within frames identities →
      (∀ f ∈ env.chain, frames f) →
      code.run depth env s = some (result, s') →
      (∀ f, kept f → frames f → s'.frame f = s.frame f) →
      RunsElsewhere code kept s' s'' →
      RunsElsewhere code kept s s''

theorem Store.Evolves.mono {β : Type} {reach reach' : FrameId → Prop} {s s' : Store β}
    (h : s.Evolves reach s')
    (hreach : ∀ f, reach f → reach' f) :
    s.Evolves reach' s' := by
  constructor
  · exact h.size_le
  · exact h.nextIdentity_le
  · intro f hf hnot
    exact h.frame_eq f hf fun hr => hnot (hreach f hr)

theorem Likeness.Stores.of_evolves {β γ : Type} {L : Likeness β γ} {W : Matching}
    {s s' : Store β} {t t' : Store γ}
    (h : L.Stores W s t)
    (hs : s.Evolves (fun f => ¬ ∃ g, W.frames f g) s')
    (ht : t.Evolves (fun g => ¬ ∃ f, W.frames f g) t') :
    L.Stores W s' t' := by
  have hleft : ∀ {f g}, W.frames f g → s'.frame f = s.frame f := by
    intro f g hfg
    exact hs.frame_eq f (h.frames_lt hfg).1 fun hnot => hnot ⟨g, hfg⟩
  have hright : ∀ {f g}, W.frames f g → t'.frame g = t.frame g := by
    intro f g hfg
    exact ht.frame_eq g (h.frames_lt hfg).2 fun hnot => hnot ⟨f, hfg⟩
  constructor
  · intro f g hfg
    exact ⟨Nat.lt_of_lt_of_le (h.frames_lt hfg).1 hs.size_le,
      Nat.lt_of_lt_of_le (h.frames_lt hfg).2 ht.size_le⟩
  · intro i j hij
    exact ⟨Nat.lt_of_lt_of_le (h.identities_lt hij).1 hs.nextIdentity_le,
      Nat.lt_of_lt_of_le (h.identities_lt hij).2 ht.nextIdentity_le⟩
  · exact h.frames_biUnique
  · exact h.identities_biUnique
  · exact h.names_biUnique
  · intro f g hfg
    rw [hleft hfg, hright hfg]
    exact h.bindings hfg
  · intro f g m hfg hm
    rw [hleft hfg]
    exact h.bound hfg hm

namespace Code

theorem run_evolves {frames : FrameId → Prop} {identities : Identity → Prop}
    {s s' : Store Code} (hs : s.Closed frames identities)
    {code : Code} (hcode : code.Within frames identities)
    {env : Env} (henv : ∀ f ∈ env.chain, frames f)
    {depth : Nat} {result : Except Fault Val}
    (hrun : code.run depth env s = some (result, s')) :
    s.Evolves frames s' := by
  have hends := hs.endings_self hcode henv depth
  rw [hrun] at hends
  have hleft : s.Evolves (fun f => ∃ g, (Matching.on frames identities).frames f g) s' := by
    cases hends with
    | value hgrows _ _ => exact hgrows.left
    | fault hgrows _ => exact hgrows.left
  apply hleft.mono
  intro f hf
  rcases hf with ⟨_, _, hf⟩
  exact hf

theorem RunsElsewhere.evolves {code : Code} {kept : FrameId → Prop} {s s' : Store Code}
    (h : code.RunsElsewhere kept s s') :
    s.Evolves (fun f => ¬ kept f) s' := by
  induction h with
  | none s => exact .refl s
  | @run s s' _ frames _ _ _ _ hs hcode henv hrun hkept _ ih =>
      have hregion := run_evolves hs hcode henv hrun
      have hfirst : s.Evolves (fun f => ¬ kept f) s' := by
        constructor
        · exact hregion.size_le
        · exact hregion.nextIdentity_le
        · intro f hf hnot
          by_cases hframes : frames f
          · exact hkept f (not_not.mp hnot) hframes
          · exact hregion.frame_eq f hf hframes
      exact hfirst.trans ih fun _ hr => Or.inl hr

/-- Whatever code was run in before, its runs in matched environments of matched stores end alike,
nested equally deep.  What the code holds stands for itself. -/
theorem endings_after_runsElsewhere {W : Matching}
    {code : Code} (hcode : Alike .same W Eq code code)
    {env env' : Env} (henv : W.Envs Eq env env')
    {s s' t t' : Store Code} (hstores : (likeness .same).Stores W s t)
    (hs : code.RunsElsewhere (fun f => ∃ g, W.frames f g) s s')
    (ht : code.RunsElsewhere (fun g => ∃ f, W.frames f g) t t')
    (depth : Nat) :
    (likeness .same).Endings W (likeness .same).Values s' t'
      (code.run depth env s') (code.run depth env' t') := by
  have hstores' := hstores.of_evolves hs.evolves ht.evolves
  exact hcode.runs depth rfl henv s' t' hstores'

def twinStore : Store Code where
  frames := #[⟨[(⟨"x"⟩, .bool true)]⟩, ⟨[(⟨"x"⟩, .bool true)]⟩]

def twins : Matching where
  frames f g := f = 0 ∧ g = 1
  identities _ _ := False
  names _ := Eq
  binds _ _ := False

theorem twinStore_stores : (likeness .same).Stores twins twinStore twinStore := by
  constructor
  · intro f g hfg
    rcases hfg with ⟨rfl, rfl⟩
    exact ⟨Nat.zero_lt_two, Nat.one_lt_two⟩
  · intro i j hij
    cases hij
  · exact ⟨fun _ _ _ h h' => h.1.trans h'.1.symm, fun _ _ _ h h' => h.2.trans h'.2.symm⟩
  · exact ⟨fun _ _ _ h _ => h.elim, fun _ _ _ h _ => h.elim⟩
  · intro f g _
    exact biUnique_eq
  · intro f g hfg m n hmn
    rcases hfg with ⟨rfl, rfl⟩
    subst hmn
    change Option.Rel _ (Assoc.find? m [(⟨"x"⟩, Value.bool true)])
      (Assoc.find? m [(⟨"x"⟩, Value.bool true)])
    simp only [Assoc.find?]
    split
    · exact .some (.atom _)
    · exact .none
  · intro f g m _ hm
    cases hm

theorem endings_after_runsElsewhere_twins :
    (likeness .same).Endings twins (likeness .same).Values
      twinStore (twinStore.bind 0 ⟨"x"⟩ (.bool false))
      ((assign ⟨"x"⟩ (.literal (.bool false))).run 2 ⟨0, []⟩ twinStore)
      ((assign ⟨"x"⟩ (.literal (.bool false))).run 2 ⟨1, []⟩
        (twinStore.bind 0 ⟨"x"⟩ (.bool false))) := by
  have hcode : Alike .same twins Eq (assign ⟨"x"⟩ (.literal (.bool false)))
      (assign ⟨"x"⟩ (.literal (.bool false))) :=
    .assign rfl (.literal (.atom _))
  have henv : twins.Envs Eq ⟨0, []⟩ ⟨1, []⟩ := by
    constructor
    · exact .cons ⟨rfl, rfl⟩ .nil
    · intro m n hmn
      subst hmn
      exact Matching.resolves_self (fun _ _ => rfl) m
  have hclosed : twinStore.Closed (fun f => f = 0) (fun _ => False) := by
    constructor
    · intro f hf
      subst hf
      exact Nat.zero_lt_two
    · intro i hi
      cases hi
    · intro f name v hf hfound
      subst hf
      change Assoc.find? name [(⟨"x"⟩, Value.bool true)] = some v at hfound
      simp only [Assoc.find?] at hfound
      split at hfound <;> cases hfound
      exact trivial
  have helsewhere : (assign ⟨"x"⟩ (.literal (.bool false))).RunsElsewhere
      (fun g => ∃ f, twins.frames f g) twinStore
      (twinStore.bind 0 ⟨"x"⟩ (.bool false)) := by
    have hrun : (assign ⟨"x"⟩ (.literal (.bool false))).run 2 ⟨0, []⟩ twinStore =
        some (.ok (.bool false), twinStore.bind 0 ⟨"x"⟩ (.bool false)) := rfl
    refine .run hclosed trivial ?_ hrun ?_ (.none _)
    · intro f hf
      cases hf with
      | head => rfl
      | tail _ hf => cases hf
    · intro f hkept hf
      rcases hkept with ⟨_, _, rfl⟩
      exact absurd hf Nat.one_ne_zero
  exact endings_after_runsElsewhere hcode henv twinStore_stores (.none _) helsewhere 2

end Code
end MiniLisp
