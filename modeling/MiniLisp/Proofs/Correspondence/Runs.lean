import MiniLisp.Code.Depth
import MiniLisp.Proofs.Correspondence.Stores

/-!
# Matched runs

Two runs are matched if from any two matched stores they end alike: both without an answer, both
with the same fault, or both with values that are related, in stores that are matched again.  The
matching may have grown by new frames and new identities; what was outside of it is as it was, and
the same lines are printed.
-/

namespace MiniLisp

/-- What may become of a store of which only the frames in `reach` are in use. -/
structure Store.Evolves {β : Type} (reach : FrameId → Prop) (s s' : Store β) : Prop where
  size_le : s.frames.size ≤ s'.frames.size
  nextIdentity_le : s.nextIdentity ≤ s'.nextIdentity
  frame_eq : ∀ f, f < s.frames.size → ¬ reach f → s'.frame f = s.frame f

namespace Store.Evolves

variable {β : Type} {reach : FrameId → Prop} {s s' s'' : Store β}

theorem refl (s : Store β) : s.Evolves reach s :=
  ⟨Nat.le_refl _, Nat.le_refl _, fun _ _ _ => rfl⟩

theorem trans {reach' : FrameId → Prop}
    (h : s.Evolves reach s') (h' : s'.Evolves reach' s'')
    (hreach : ∀ f, reach' f → reach f ∨ s.frames.size ≤ f) :
    s.Evolves reach s'' := by
  constructor
  · exact Nat.le_trans h.size_le h'.size_le
  · exact Nat.le_trans h.nextIdentity_le h'.nextIdentity_le
  · intro f hf hnot
    have hnot' : ¬ reach' f := by
      intro hr
      cases hreach f hr with
      | inl hold => exact hnot hold
      | inr hnew => exact Nat.lt_irrefl f (Nat.lt_of_lt_of_le hf hnew)
    rw [h'.frame_eq f (Nat.lt_of_lt_of_le hf h.size_le) hnot', h.frame_eq f hf hnot]

theorem bind {f : FrameId} (hf : reach f) (name : Symbol) (v : Value β) :
    s.Evolves reach (s.bind f name v) := by
  constructor
  · exact Nat.le_of_eq (s.size_bind f name v).symm
  · exact Nat.le_refl _
  · intro g hg hnot
    have hne : f ≠ g := by
      intro h
      exact hnot (h ▸ hf)
    exact s.frame_bind_of_ne hne name v

theorem push (F : Frame β) : s.Evolves reach (s.push F).2 := by
  constructor
  · rw [Store.size_push]
    exact Nat.le_succ _
  · exact Nat.le_refl _
  · intro f hf _
    rw [Store.frame_push, if_neg (Nat.ne_of_lt hf)]

theorem fresh : s.Evolves reach { s with nextIdentity := s.nextIdentity + 1 } :=
  ⟨Nat.le_refl _, Nat.le_succ _, fun _ _ _ => rfl⟩

theorem print (line : String) :
    s.Evolves reach { s with output := s.output.push line } :=
  ⟨Nat.le_refl _, Nat.le_refl _, fun _ _ _ => rfl⟩

end Store.Evolves

/-!
# Growth of a matching along two runs
-/

/-- A matching grows by frames with names matched by one of `N`; every new frame is matched. -/
structure Matching.Grows {β γ : Type} (N : Namings) (W W' : Matching) (s s' : Store β)
    (t t' : Store γ) : Prop where
  le : W ≤ W'
  frames : ∀ {f g}, W'.frames f g →
    W.frames f g ∨ s.frames.size ≤ f ∧ t.frames.size ≤ g ∧ W'.names f ∈ N.relations
  identities : ∀ {i j}, W'.identities i j →
    W.identities i j ∨ s.nextIdentity ≤ i ∧ t.nextIdentity ≤ j
  left : s.Evolves (fun f => ∃ g, W.frames f g) s'
  right : t.Evolves (fun g => ∃ f, W.frames f g) t'
  left_new : ∀ f, s.frames.size ≤ f → f < s'.frames.size → ∃ g, W'.frames f g
  right_new : ∀ g, t.frames.size ≤ g → g < t'.frames.size → ∃ f, W'.frames f g
  printed : ∃ lines, s'.output = s.output ++ lines ∧ t'.output = t.output ++ lines

namespace Matching.Grows

variable {β γ : Type} {N : Namings} {W W' W'' : Matching} {s s' s'' : Store β}
  {t t' t'' : Store γ}

theorem of_size_eq (hle : W ≤ W')
    (hframes : ∀ {f g}, W'.frames f g → W.frames f g)
    (hidentities : ∀ {i j}, W'.identities i j →
      W.identities i j ∨ s.nextIdentity ≤ i ∧ t.nextIdentity ≤ j)
    (hleft : s.Evolves (fun f => ∃ g, W.frames f g) s')
    (hright : t.Evolves (fun g => ∃ f, W.frames f g) t')
    (hs : s'.frames.size = s.frames.size) (ht : t'.frames.size = t.frames.size)
    (hprinted : ∃ lines, s'.output = s.output ++ lines ∧ t'.output = t.output ++ lines) :
    W.Grows N W' s s' t t' := by
  constructor
  · exact hle
  · exact fun hfg => Or.inl (hframes hfg)
  · exact hidentities
  · exact hleft
  · exact hright
  · intro f hle hlt
    exact absurd (hs ▸ hlt) (Nat.not_lt_of_le hle)
  · intro g hle hlt
    exact absurd (ht ▸ hlt) (Nat.not_lt_of_le hle)
  · exact hprinted

theorem refl (W : Matching) (s : Store β) (t : Store γ) : W.Grows N W s s t t :=
  of_size_eq (le_refl W) id Or.inl (.refl s) (.refl t) rfl rfl ⟨#[], by simp, by simp⟩

theorem trans (h : W.Grows N W' s s' t t') (h' : W'.Grows N W'' s' s'' t' t'') :
    W.Grows N W'' s s'' t t'' := by
  constructor
  · exact le_trans h.le h'.le
  · intro f g hfg
    cases h'.frames hfg with
    | inl hold =>
        cases h.frames hold with
        | inl hold => exact Or.inl hold
        | inr hnew =>
            rw [h'.le.names hold]
            exact Or.inr hnew
    | inr hnew =>
        exact Or.inr ⟨le_trans h.left.size_le hnew.1, le_trans h.right.size_le hnew.2.1, hnew.2.2⟩
  · intro i j hij
    cases h'.identities hij with
    | inl hold => exact h.identities hold
    | inr hnew =>
        exact Or.inr ⟨le_trans h.left.nextIdentity_le hnew.1,
          le_trans h.right.nextIdentity_le hnew.2⟩
  · apply h.left.trans h'.left
    intro f hf
    rcases hf with ⟨g, hfg⟩
    cases h.frames hfg with
    | inl hold => exact Or.inl ⟨g, hold⟩
    | inr hnew => exact Or.inr hnew.1
  · apply h.right.trans h'.right
    intro g hg
    rcases hg with ⟨f, hfg⟩
    cases h.frames hfg with
    | inl hold => exact Or.inl ⟨f, hold⟩
    | inr hnew => exact Or.inr hnew.2.1
  · intro f hle hlt
    by_cases hmiddle : f < s'.frames.size
    · rcases h.left_new f hle hmiddle with ⟨g, hfg⟩
      exact ⟨g, h'.le.frames hfg⟩
    · exact h'.left_new f (Nat.le_of_not_lt hmiddle) hlt
  · intro g hle hlt
    by_cases hmiddle : g < t'.frames.size
    · rcases h.right_new g hle hmiddle with ⟨f, hfg⟩
      exact ⟨f, h'.le.frames hfg⟩
    · exact h'.right_new g (Nat.le_of_not_lt hmiddle) hlt
  · rcases h.printed with ⟨lines, hs, ht⟩
    rcases h'.printed with ⟨lines', hs', ht'⟩
    exact ⟨lines ++ lines', by rw [hs', hs, Array.append_assoc],
      by rw [ht', ht, Array.append_assoc]⟩

theorem bind {f g : FrameId} (hfg : W.frames f g) (m n : Symbol) (v : Value β) (w : Value γ) :
    W.Grows N W s (s.bind f m v) t (t.bind g n w) :=
  of_size_eq (le_refl W) id Or.inl (.bind ⟨g, hfg⟩ m v) (.bind ⟨f, hfg⟩ n w)
    (s.size_bind f m v) (t.size_bind g n w) ⟨#[], by simp [Store.bind], by simp [Store.bind]⟩

theorem push (hnew : ∀ g, ¬ W.frames s.frames.size g) {ρ : Symbol → Symbol → Prop}
    (hρ : ρ ∈ N.relations) (names : List Symbol) (F : Frame β) (G : Frame γ) :
    W.Grows N (W.withFrame s.frames.size t.frames.size ρ names) s (s.push F).2 t
      (t.push G).2 := by
  constructor
  · exact le_withFrame hnew t.frames.size ρ names
  · intro f g hfg
    rcases hfg with hfg | ⟨rfl, rfl⟩
    · exact Or.inl hfg
    · rw [withFrame_names]
      exact Or.inr ⟨Nat.le_refl _, Nat.le_refl _, hρ⟩
  · exact Or.inl
  · exact .push F
  · exact .push G
  · intro f hle hlt
    rw [Store.size_push] at hlt
    exact ⟨t.frames.size, Or.inr ⟨Nat.le_antisymm (Nat.le_of_lt_succ hlt) hle, rfl⟩⟩
  · intro g hle hlt
    rw [Store.size_push] at hlt
    exact ⟨s.frames.size, Or.inr ⟨rfl, Nat.le_antisymm (Nat.le_of_lt_succ hlt) hle⟩⟩
  · exact ⟨#[], by simp [Store.push], by simp [Store.push]⟩

theorem fresh :
    W.Grows N (W.withIdentity s.nextIdentity t.nextIdentity)
      s { s with nextIdentity := s.nextIdentity + 1 }
      t { t with nextIdentity := t.nextIdentity + 1 } := by
  apply of_size_eq (W.le_withIdentity _ _) id _ .fresh .fresh rfl rfl
    ⟨#[], by simp, by simp⟩
  intro i j hij
  rcases hij with hij | ⟨rfl, rfl⟩
  · exact Or.inl hij
  · exact Or.inr ⟨Nat.le_refl _, Nat.le_refl _⟩

theorem fresh_left :
    W.Grows N W s { s with nextIdentity := s.nextIdentity + 1 } t t :=
  of_size_eq (le_refl W) id Or.inl .fresh (.refl t) rfl rfl ⟨#[], by simp, by simp⟩

theorem print (line : String) :
    W.Grows N W s { s with output := s.output.push line } t
      { t with output := t.output.push line } :=
  of_size_eq (le_refl W) id Or.inl (.print line) (.print line) rfl rfl
    ⟨#[line], by simp, by simp⟩

end Matching.Grows

/-!
# Matched endings and matched runs
-/

/-- How two runs from matched stores end when they are matched; `R` relates their values. -/
inductive Likeness.Endings {β γ α α' : Type} (L : Likeness β γ) (W : Matching)
    (R : Matching → α → α' → Prop) (s : Store β) (t : Store γ) :
    Option (Except Fault α × Store β) → Option (Except Fault α' × Store γ) → Prop where
  | unanswered : Endings L W R s t none none
  | value {W' a a' s' t'} :
      W.Grows L.namings W' s s' t t' →
      L.Stores W' s' t' →
      R W' a a' →
      Endings L W R s t (some (.ok a, s')) (some (.ok a', t'))
  | fault {W' fault s' t'} :
      W.Grows L.namings W' s s' t t' →
      L.Stores W' s' t' →
      Endings L W R s t (some (.error fault, s')) (some (.error fault, t'))

def Likeness.Runs {β γ α α' : Type} (L : Likeness β γ) (W : Matching)
    (R : Matching → α → α' → Prop) (a : Run β α) (b : Run γ α') : Prop :=
  ∀ s t, L.Stores W s t → L.Endings W R s t (a s) (b t)

inductive Results {ε α α' : Type} (r : α → α' → Prop) : Except ε α → Except ε α' → Prop where
  | ok {a a'} : r a a' → Results r (.ok a) (.ok a')
  | error (e : ε) : Results r (.error e) (.error e)

namespace Results

variable {ε α α' : Type} {r : α → α' → Prop} {p : Except ε α} {q : Except ε α'}

theorem exists_ok (h : Results r p q) {a : α} (hp : p = .ok a) : ∃ a', q = .ok a' ∧ r a a' := by
  cases h with
  | ok ha =>
      cases hp
      exact ⟨_, rfl, ha⟩
  | error => cases hp

theorem eq_error (h : Results r p q) {e : ε} (hp : p = .error e) : q = .error e := by
  cases h with
  | ok => cases hp
  | error =>
      cases hp
      rfl

end Results

namespace Likeness.Endings

variable {β γ α α' : Type} {L : Likeness β γ} {W W' : Matching}
  {R : Matching → α → α' → Prop} {s s' : Store β} {t t' : Store γ}

theorem of_grows (h : W.Grows L.namings W' s s' t t')
    {x : Option (Except Fault α × Store β)} {y : Option (Except Fault α' × Store γ)}
    (hends : L.Endings W' R s' t' x y) :
    L.Endings W R s t x y := by
  cases hends with
  | unanswered => exact .unanswered
  | value hgrows hstores hvalue => exact .value (h.trans hgrows) hstores hvalue
  | fault hgrows hstores => exact .fault (h.trans hgrows) hstores

end Likeness.Endings

namespace Likeness.Runs

variable {β γ α α' δ δ' : Type} {L : Likeness β γ} {W : Matching}
  {R : Matching → α → α' → Prop} {S : Matching → δ → δ' → Prop}

theorem pure {a : α} {a' : α'}
    (h : R W a a') :
    L.Runs W R (Pure.pure a) (Pure.pure a') := by
  intro s t hstores
  exact .value (.refl W s t) hstores h

theorem fail (cause : Fault.Cause) :
    L.Runs W R (Run.fail cause) (Run.fail cause) := by
  intro s t hstores
  exact .fault (.refl W s t) hstores

theorem tooDeep : L.Runs W R Run.tooDeep Run.tooDeep := by
  intro s t _
  exact .unanswered

theorem ofExcept {a : Except Fault.Cause α} {a' : Except Fault.Cause α'}
    (h : Results (R W) a a') :
    L.Runs W R (Run.ofExcept a) (Run.ofExcept a') := by
  cases h with
  | ok hvalue => exact pure hvalue
  | error cause => exact fail cause

theorem bind {a : Run β α} {b : Run γ α'} {f : α → Run β δ} {g : α' → Run γ δ'}
    (hab : L.Runs W R a b)
    (hfg : ∀ W' x y, W ≤ W' → R W' x y → L.Runs W' S (f x) (g y)) :
    L.Runs W S (a >>= f) (b >>= g) := by
  intro s t hstores
  rw [Run.bind_eq, Run.bind_eq]
  have hends := hab s t hstores
  revert hends
  generalize a s = x
  generalize b t = y
  intro hends
  cases hends with
  | unanswered => exact .unanswered
  | value hgrows hstores' hvalue =>
      exact (hfg _ _ _ hgrows.le hvalue _ _ hstores').of_grows hgrows
  | fault hgrows hstores' => exact .fault hgrows hstores'

theorem mapM {ι ι' : Type} {r : Matching → ι → ι' → Prop}
    {f : ι → Run β α} {g : ι' → Run γ α'}
    (hr : ∀ {W W' x y}, W ≤ W' → r W x y → r W' x y)
    (hR : ∀ {W W' x y}, W ≤ W' → R W x y → R W' x y)
    (hfg : ∀ W' x y, W ≤ W' → r W' x y → L.Runs W' R (f x) (g y))
    {xs : List ι} {ys : List ι'} (hxs : List.Forall₂ (r W) xs ys) :
    L.Runs W (fun W' => List.Forall₂ (R W')) (xs.mapM f) (ys.mapM g) := by
  induction xs generalizing W ys with
  | nil =>
      cases hxs with
      | nil =>
          rw [List.mapM_nil, List.mapM_nil]
          exact pure .nil
  | cons x xs ih =>
      cases hxs with
      | cons hx hxs =>
          rw [List.mapM_cons, List.mapM_cons]
          apply bind (hfg W _ _ (le_refl W) hx)
          intro W' v w hle hvw
          have hrest := ih (fun W'' x y hle' => hfg W'' x y (le_trans hle hle'))
            (hxs.imp fun _ _ h => hr hle h)
          apply bind hrest
          intro W'' vs ws hle' hvs
          exact pure (.cons (hR hle' hvw) hvs)

end Likeness.Runs
end MiniLisp
