import MiniLisp.Proofs.Correspondence.Matching

/-!
# Matched stores

Stores are matched if their matched frames bind matched names to matched values, or bind neither.
No frame, identity or name stands for two.
-/

namespace MiniLisp

def Frame.Matches {β γ : Type} (names : Symbol → Symbol → Prop)
    (values : Value β → Value γ → Prop) (F : Frame β) (G : Frame γ) : Prop :=
  ∀ m n, names m n → Option.Rel values (F.find? m) (G.find? n)

namespace Frame

variable {β γ : Type} {names : Symbol → Symbol → Prop} {values : Value β → Value γ → Prop}
  {F : Frame β} {G : Frame γ}

theorem Matches.imp {values' : Value β → Value γ → Prop}
    (h : Frame.Matches names values F G)
    (himp : ∀ {v w}, values v w → values' v w) :
    Frame.Matches names values' F G := by
  intro m n hmn
  have hfound := h m n hmn
  revert hfound
  cases F.find? m <;> cases G.find? n <;> intro hfound <;> cases hfound
  · exact .none
  · exact .some (himp ‹_›)

theorem matches_empty : Frame.Matches names values ({} : Frame β) ({} : Frame γ) := by
  intro m n _
  exact .none

theorem Matches.bind
    (h : Frame.Matches names values F G)
    (hone : Relator.BiUnique names)
    {m n : Symbol} (hmn : names m n)
    {v : Value β} {w : Value γ} (hvw : values v w) :
    Frame.Matches names values (F.bind m v) (G.bind n w) := by
  intro m' n' hmn'
  rw [Frame.find?_bind, Frame.find?_bind]
  have hiff : m = m' ↔ n = n' := Relator.rel_eq hone hmn hmn'
  by_cases hm : m = m'
  · rw [if_pos hm, if_pos (hiff.mp hm)]
    exact .some hvw
  · rw [if_neg hm, if_neg fun hn => hm (hiff.mpr hn)]
    exact h m' n' hmn'

theorem Matches.bindAll
    (hone : Relator.BiUnique names)
    (hundefined : values .undefined .undefined)
    {ps qs : List Symbol} (hps : List.Forall₂ names ps qs)
    {vs : List (Value β)} {ws : List (Value γ)} (hvs : List.Forall₂ values vs ws)
    (h : Frame.Matches names values F G) :
    Frame.Matches names values (F.bindAll ps vs) (G.bindAll qs ws) := by
  induction hps generalizing F G vs ws with
  | nil => exact h
  | cons hp hps ih =>
      cases hvs with
      | nil => exact ih .nil (h.bind hone hp hundefined)
      | cons hv hvs => exact ih hvs (h.bind hone hp hv)

theorem isSome_find?_bind {m : Symbol}
    (h : (F.find? m).isSome)
    (name : Symbol) (v : Value β) :
    ((F.bind name v).find? m).isSome := by
  rw [Frame.find?_bind]
  split
  · rfl
  · exact h

theorem isSome_find?_bindAll_of_isSome {m : Symbol} (ps : List Symbol) (vs : List (Value β))
    (h : (F.find? m).isSome) :
    ((F.bindAll ps vs).find? m).isSome := by
  induction ps generalizing F vs with
  | nil => exact h
  | cons p ps ih =>
      cases vs with
      | nil => exact ih [] (isSome_find?_bind h p .undefined)
      | cons v vs => exact ih vs (isSome_find?_bind h p v)

theorem isSome_find?_bindAll (F : Frame β) {m : Symbol} {ps : List Symbol}
    (hm : m ∈ ps) (vs : List (Value β)) :
    ((F.bindAll ps vs).find? m).isSome := by
  induction ps generalizing F vs with
  | nil => cases hm
  | cons p ps ih =>
      have hself : ∀ v, ((F.bind p v).find? p).isSome := by
        intro v
        rw [Frame.find?_bind, if_pos rfl]
        rfl
      cases hm with
      | head =>
          cases vs with
          | nil => exact isSome_find?_bindAll_of_isSome ps [] (hself .undefined)
          | cons v vs => exact isSome_find?_bindAll_of_isSome ps vs (hself v)
      | tail _ hm =>
          cases vs with
          | nil => exact ih (F.bind p .undefined) hm []
          | cons v vs => exact ih (F.bind p v) hm vs

end Frame

namespace Store

variable {β : Type}

theorem frame_bind_of_ne (s : Store β) {id other : FrameId}
    (h : id ≠ other)
    (name : Symbol) (v : Value β) :
    (s.bind id name v).frame other = s.frame other := by
  simp only [bind, frame, Array.getElem?_modify, if_neg h]

theorem frame_bind (s : Store β) {id : FrameId}
    (h : id < s.frames.size)
    (name : Symbol) (v : Value β) (other : FrameId) :
    (s.bind id name v).frame other =
      if id = other then (s.frame other).bind name v else s.frame other := by
  split
  · subst other
    simp only [bind, frame, Array.getElem?_modify, if_pos, Array.getElem?_eq_getElem h]
    rfl
  · exact frame_bind_of_ne s ‹_› name v

theorem size_bind (s : Store β) (id : FrameId) (name : Symbol) (v : Value β) :
    (s.bind id name v).frames.size = s.frames.size :=
  Array.size_modify

theorem size_push (s : Store β) (F : Frame β) :
    (s.push F).2.frames.size = s.frames.size + 1 :=
  Array.size_push F

theorem lookup?_eq_bind_holder? (s : Store β) (env : Env) (name : Symbol) :
    s.lookup? env name = (s.holder? env name).bind fun id => s.find? id name := by
  unfold lookup? holder?
  generalize env.chain = chain
  induction chain with
  | nil => rfl
  | cons id rest ih =>
      rw [List.findSome?_cons, List.find?_cons]
      cases h : s.find? id name with
      | none => simpa using ih
      | some v => simp [h]

end Store

/-!
# The relation between stores
-/

structure Likeness.Stores {β γ : Type} (L : Likeness β γ) (W : Matching) (s : Store β)
    (t : Store γ) : Prop where
  frames_lt : ∀ {f g}, W.frames f g → f < s.frames.size ∧ g < t.frames.size
  identities_lt : ∀ {i j}, W.identities i j → i < s.nextIdentity ∧ j < t.nextIdentity
  frames_biUnique : Relator.BiUnique W.frames
  identities_biUnique : Relator.BiUnique W.identities
  names_biUnique : ∀ {f g}, W.frames f g → Relator.BiUnique (W.names f)
  bindings : ∀ {f g}, W.frames f g →
    Frame.Matches (W.names f) (L.Values W) (s.frame f) (t.frame g)
  bound : ∀ {f g m}, W.frames f g → W.binds f m → ((s.frame f).find? m).isSome

theorem biUnique_or_new {r : Nat → Nat → Prop} {i j : Nat}
    (hone : Relator.BiUnique r)
    (hlt : ∀ {a b}, r a b → a < i ∧ b < j) :
    Relator.BiUnique fun a b => r a b ∨ a = i ∧ b = j := by
  constructor
  · intro a b c hab hcb
    rcases hab with hab | ⟨rfl, hb⟩ <;> rcases hcb with hcb | ⟨hc, hcb⟩
    · exact hone.1 hab hcb
    · exact absurd (hlt hab).2 (hcb ▸ Nat.lt_irrefl j)
    · exact absurd (hlt hcb).2 (hb ▸ Nat.lt_irrefl j)
    · exact hc.symm
  · intro a b c hab hac
    rcases hab with hab | ⟨ha, hb⟩ <;> rcases hac with hac | ⟨ha', hc⟩
    · exact hone.2 hab hac
    · exact absurd (hlt hab).1 (ha' ▸ Nat.lt_irrefl i)
    · exact absurd (hlt hac).1 (ha ▸ Nat.lt_irrefl i)
    · exact hb.trans hc.symm

namespace Likeness.Stores

variable {β γ : Type} {L : Likeness β γ} {W : Matching} {s : Store β} {t : Store γ}

theorem not_frames_size_left (h : L.Stores W s t) (g : FrameId) :
    ¬ W.frames s.frames.size g := by
  intro hg
  exact Nat.lt_irrefl _ (h.frames_lt hg).1

theorem find?_chain (h : L.Stores W s t)
    {chain chain' : List FrameId} (hchain : List.Forall₂ W.frames chain chain')
    {m n : Symbol} (hmn : W.Resolves chain m n) :
    (∃ f g, chain.find? (fun id => (s.find? id m).isSome) = some f ∧
      chain'.find? (fun id => (t.find? id n).isSome) = some g ∧
      W.frames f g ∧ W.names f m n) ∨
    (chain.find? (fun id => (s.find? id m).isSome) = none ∧
      chain'.find? (fun id => (t.find? id n).isSome) = none ∧ m = n) := by
  induction hchain with
  | nil => exact Or.inr ⟨rfl, rfl, hmn⟩
  | @cons f g rest rest' hf hrest ih =>
      rcases hmn with ⟨hnames, hbound⟩
      have hfound : Option.Rel (L.Values W) (s.find? f m) (t.find? g n) :=
        h.bindings hf m n hnames
      rw [List.find?_cons, List.find?_cons]
      cases hs : s.find? f m with
      | some v =>
          rw [hs] at hfound
          cases ht : t.find? g n with
          | some w => exact Or.inl ⟨f, g, rfl, rfl, hf, hnames⟩
          | none =>
              rw [ht] at hfound
              cases hfound
      | none =>
          rw [hs] at hfound
          cases ht : t.find? g n with
          | some w =>
              rw [ht] at hfound
              cases hfound
          | none =>
              cases hbound with
              | inl hbinds =>
                  have hsome := h.bound hf hbinds
                  change (s.find? f m).isSome at hsome
                  rw [hs] at hsome
                  cases hsome
              | inr hrest => exact ih hrest

theorem holder? (h : L.Stores W s t)
    {ρ : Symbol → Symbol → Prop} {env env' : Env} (henv : W.Envs ρ env env')
    {m n : Symbol} (hmn : ρ m n) :
    (∃ f g, s.holder? env m = some f ∧ t.holder? env' n = some g ∧
      W.frames f g ∧ W.names f m n) ∨
    (s.holder? env m = none ∧ t.holder? env' n = none ∧ m = n) :=
  h.find?_chain henv.frames (henv.names m n hmn)

theorem lookup? (h : L.Stores W s t)
    {ρ : Symbol → Symbol → Prop} {env env' : Env} (henv : W.Envs ρ env env')
    {m n : Symbol} (hmn : ρ m n) :
    (∃ v w, s.lookup? env m = some v ∧ t.lookup? env' n = some w ∧ L.Values W v w) ∨
    (s.lookup? env m = none ∧ t.lookup? env' n = none ∧ m = n) := by
  rw [Store.lookup?_eq_bind_holder?, Store.lookup?_eq_bind_holder?]
  rcases h.holder? henv hmn with ⟨f, g, hs, ht, hf, hnames⟩ | ⟨hs, ht, heq⟩
  · have hfound : Option.Rel (L.Values W) (s.find? f m) (t.find? g n) :=
      h.bindings hf m n hnames
    have hsome : (s.find? f m).isSome :=
      List.find?_some (p := fun id => (s.find? id m).isSome) hs
    rw [hs, ht]
    change (∃ v w, s.find? f m = some v ∧ t.find? g n = some w ∧ L.Values W v w) ∨ _
    cases hv : s.find? f m with
    | none =>
        rw [hv] at hsome
        cases hsome
    | some v =>
        rw [hv] at hfound
        cases hw : t.find? g n with
        | none =>
            rw [hw] at hfound
            cases hfound
        | some w =>
            rw [hw] at hfound
            cases hfound with
            | some hvw => exact Or.inl ⟨v, w, rfl, rfl, hvw⟩
  · rw [hs, ht]
    exact Or.inr ⟨rfl, rfl, heq⟩

/-!
# What the operations of the store keep
-/

theorem bind (h : L.Stores W s t)
    {f g : FrameId} (hf : W.frames f g)
    {m n : Symbol} (hmn : W.names f m n)
    {v : Value β} {w : Value γ} (hvw : L.Values W v w) :
    L.Stores W (s.bind f m v) (t.bind g n w) := by
  rcases h.frames_lt hf with ⟨hfs, hgt⟩
  constructor
  · intro a b hab
    rw [Store.size_bind, Store.size_bind]
    exact h.frames_lt hab
  · exact h.identities_lt
  · exact h.frames_biUnique
  · exact h.identities_biUnique
  · exact h.names_biUnique
  · intro a b hab
    have hiff : f = a ↔ g = b := Relator.rel_eq h.frames_biUnique hf hab
    rw [Store.frame_bind s hfs, Store.frame_bind t hgt]
    by_cases ha : f = a
    · rw [if_pos ha, if_pos (hiff.mp ha)]
      exact (h.bindings hab).bind (h.names_biUnique hab) (ha ▸ hmn) hvw
    · rw [if_neg ha, if_neg fun hb => ha (hiff.mpr hb)]
      exact h.bindings hab
  · intro a b k hab hk
    rw [Store.frame_bind s hfs]
    split
    · exact Frame.isSome_find?_bind (h.bound hab hk) m v
    · exact h.bound hab hk

theorem push (h : L.Stores W s t)
    {ρ : Symbol → Symbol → Prop} (hρ : Relator.BiUnique ρ)
    {F : Frame β} {G : Frame γ} (hFG : Frame.Matches ρ (L.Values W) F G)
    {names : List Symbol} (hnames : ∀ m ∈ names, (F.find? m).isSome) :
    L.Stores (W.withFrame s.frames.size t.frames.size ρ names) (s.push F).2 (t.push G).2 := by
  have hle := Matching.le_withFrame h.not_frames_size_left t.frames.size ρ names
  have hold : ∀ {a b}, W.frames a b → a ≠ s.frames.size ∧ b ≠ t.frames.size := by
    intro a b hab
    exact ⟨Nat.ne_of_lt (h.frames_lt hab).1, Nat.ne_of_lt (h.frames_lt hab).2⟩
  constructor
  · intro a b hab
    rcases hab with hab | ⟨rfl, rfl⟩
    · rw [Store.size_push, Store.size_push]
      exact ⟨Nat.lt_succ_of_lt (h.frames_lt hab).1, Nat.lt_succ_of_lt (h.frames_lt hab).2⟩
    · rw [Store.size_push, Store.size_push]
      exact ⟨Nat.lt_succ_self _, Nat.lt_succ_self _⟩
  · exact h.identities_lt
  · exact biUnique_or_new h.frames_biUnique h.frames_lt
  · exact h.identities_biUnique
  · intro a b hab
    rcases hab with hab | ⟨rfl, rfl⟩
    · rw [hle.names hab]
      exact h.names_biUnique hab
    · rw [Matching.withFrame_names]
      exact hρ
  · intro a b hab
    rcases hab with hab | ⟨rfl, rfl⟩
    · rw [Store.frame_push, Store.frame_push, if_neg (hold hab).1, if_neg (hold hab).2,
        hle.names hab]
      exact (h.bindings hab).imp fun hvw => hvw.mono hle
    · rw [Store.frame_push, Store.frame_push, if_pos rfl, if_pos rfl, Matching.withFrame_names]
      exact hFG.imp fun hvw => hvw.mono hle
  · intro a b m hab hm
    rcases hab with hab | ⟨rfl, rfl⟩
    · rw [Store.frame_push, if_neg (hold hab).1]
      change (if a = s.frames.size then (· ∈ names) else W.binds a) m at hm
      rw [if_neg (hold hab).1] at hm
      exact h.bound hab hm
    · rw [Store.frame_push, if_pos rfl]
      rw [Matching.withFrame_binds] at hm
      exact hnames m hm

theorem fresh (h : L.Stores W s t) :
    L.Stores (W.withIdentity s.nextIdentity t.nextIdentity)
      { s with nextIdentity := s.nextIdentity + 1 }
      { t with nextIdentity := t.nextIdentity + 1 } := by
  have hle := W.le_withIdentity s.nextIdentity t.nextIdentity
  constructor
  · exact h.frames_lt
  · intro i j hij
    rcases hij with hij | ⟨rfl, rfl⟩
    · exact ⟨Nat.lt_succ_of_lt (h.identities_lt hij).1, Nat.lt_succ_of_lt (h.identities_lt hij).2⟩
    · exact ⟨Nat.lt_succ_self _, Nat.lt_succ_self _⟩
  · exact h.frames_biUnique
  · exact biUnique_or_new h.identities_biUnique h.identities_lt
  · exact h.names_biUnique
  · intro f g hf
    exact (h.bindings hf).imp fun hvw => hvw.mono hle
  · exact h.bound

theorem fresh_left (h : L.Stores W s t) :
    L.Stores W { s with nextIdentity := s.nextIdentity + 1 } t := by
  constructor
  · exact h.frames_lt
  · intro i j hij
    exact ⟨Nat.lt_succ_of_lt (h.identities_lt hij).1, (h.identities_lt hij).2⟩
  · exact h.frames_biUnique
  · exact h.identities_biUnique
  · exact h.names_biUnique
  · exact h.bindings
  · exact h.bound

theorem print (h : L.Stores W s t) (line : String) :
    L.Stores W { s with output := s.output.push line } { t with output := t.output.push line } :=
  ⟨h.frames_lt, h.identities_lt, h.frames_biUnique, h.identities_biUnique, h.names_biUnique,
    h.bindings, h.bound⟩

end Likeness.Stores
end MiniLisp
