import Mathlib
import MiniLisp.Store

/-!
# Matchings

Two stores may hold the same things in different places and under different names.  A matching
says which frame of the one stands for which of the other, which identity for which, and for each
matched frame which of its names stands for which name of its partner.

What two procedures have to have in common is left open; it is called a likeness.
-/

namespace MiniLisp

structure Closure (β : Type) where
  parameters : List Symbol
  body : β
  env : Env

/-- A matching between the stores of two runs.  Names are matched frame by frame; `binds` holds of
names that a frame of the first store is known to bind. -/
structure Matching where
  frames : FrameId → FrameId → Prop
  identities : Identity → Identity → Prop
  names : FrameId → Symbol → Symbol → Prop
  binds : FrameId → Symbol → Prop

namespace Matching

/-!
# Growth

A run makes frames and gives out identities, so a matching grows.  What a matched frame's names
stand for never changes.
-/

structure Extends (W W' : Matching) : Prop where
  frames : ∀ {f g}, W.frames f g → W'.frames f g
  identities : ∀ {i j}, W.identities i j → W'.identities i j
  names : ∀ {f g}, W.frames f g → W'.names f = W.names f
  binds : ∀ {f g m}, W.frames f g → W.binds f m → W'.binds f m

instance : Preorder Matching where
  le := Extends
  le_refl _ := ⟨id, id, fun _ => rfl, fun _ hm => hm⟩
  le_trans _ _ _ h k :=
    ⟨fun hf => k.frames (h.frames hf), fun hi => k.identities (h.identities hi),
      fun hf => (k.names (h.frames hf)).trans (h.names hf),
      fun hf hm => k.binds (h.frames hf) (h.binds hf hm)⟩

def withIdentity (W : Matching) (i j : Identity) : Matching :=
  { W with identities := fun a b => W.identities a b ∨ a = i ∧ b = j }

/-- Two frames more, whose names are matched by `ρ` and of which the first binds `bound`. -/
def withFrame (W : Matching) (f g : FrameId) (ρ : Symbol → Symbol → Prop) (bound : List Symbol) :
    Matching :=
  { W with
    frames := fun a b => W.frames a b ∨ a = f ∧ b = g
    names := fun a => if a = f then ρ else W.names a
    binds := fun a => if a = f then (· ∈ bound) else W.binds a }

theorem le_withIdentity (W : Matching) (i j : Identity) :
    W ≤ W.withIdentity i j := by
  constructor
  · exact id
  · exact Or.inl
  · intro f g _
    rfl
  · intro f g m _ hm
    exact hm

@[simp] theorem withFrame_names (W : Matching) (f g : FrameId) (ρ : Symbol → Symbol → Prop)
    (bound : List Symbol) :
    (W.withFrame f g ρ bound).names f = ρ :=
  if_pos rfl

@[simp] theorem withFrame_binds (W : Matching) (f g : FrameId) (ρ : Symbol → Symbol → Prop)
    (bound : List Symbol) :
    (W.withFrame f g ρ bound).binds f = (· ∈ bound) :=
  if_pos rfl

theorem le_withFrame {W : Matching} {f : FrameId}
    (hf : ∀ g, ¬ W.frames f g)
    (g : FrameId) (ρ : Symbol → Symbol → Prop) (bound : List Symbol) :
    W ≤ W.withFrame f g ρ bound := by
  have hne : ∀ {a b}, W.frames a b → a ≠ f := by
    intro a b hab h
    exact hf b (h ▸ hab)
  constructor
  · exact Or.inl
  · exact id
  · intro a b hab
    exact if_neg (hne hab)
  · intro a b m hab hm
    change (if a = f then (· ∈ bound) else W.binds a) m
    rw [if_neg (hne hab)]
    exact hm

/-!
# What a name means in matched chains

Names `m` and `n` mean the same in matched chains if they are matched in every frame up to one
that is known to bind `m`.  Where no frame is known to, they have to be the same name, since an
unbound name is reported.
-/

def Resolves (W : Matching) : List FrameId → Symbol → Symbol → Prop
  | [], m, n => m = n
  | f :: rest, m, n => W.names f m n ∧ (W.binds f m ∨ W.Resolves rest m n)

theorem Resolves.mono {W W' : Matching} (hle : W ≤ W')
    {chain chain' : List FrameId}
    (hchain : List.Forall₂ W.frames chain chain')
    {m n : Symbol}
    (h : W.Resolves chain m n) :
    W'.Resolves chain m n := by
  induction hchain with
  | nil => exact h
  | cons hf hrest ih =>
      rcases h with ⟨hnames, hbound⟩
      constructor
      · rw [hle.names hf]
        exact hnames
      · cases hbound with
        | inl hbinds => exact Or.inl (hle.binds hf hbinds)
        | inr hrest => exact Or.inr (ih hrest)

theorem resolves_self {W : Matching} {chain : List FrameId}
    (h : ∀ f ∈ chain, W.names f = Eq)
    (m : Symbol) :
    W.Resolves chain m m := by
  induction chain with
  | nil => rfl
  | cons f rest ih =>
      constructor
      · rw [h f List.mem_cons_self]
      · exact Or.inr (ih fun g hg => h g (List.mem_cons_of_mem f hg))

/-- Environments whose frames are matched and in which the names that `ρ` matches mean the
same. -/
structure Envs (W : Matching) (ρ : Symbol → Symbol → Prop) (env env' : Env) : Prop where
  frames : List.Forall₂ W.frames env.chain env'.chain
  names : ∀ m n, ρ m n → W.Resolves env.chain m n

theorem Envs.mono {W W' : Matching} (hle : W ≤ W')
    {ρ : Symbol → Symbol → Prop} {env env' : Env}
    (h : W.Envs ρ env env') :
    W'.Envs ρ env env' := by
  constructor
  · exact h.frames.imp fun _ _ hf => hle.frames hf
  · intro m n hmn
    exact (h.names m n hmn).mono hle h.frames

theorem Envs.innermost {W : Matching} {ρ : Symbol → Symbol → Prop} {env env' : Env}
    (h : W.Envs ρ env env') :
    W.frames env.innermost env'.innermost := by
  have hframes := h.frames
  cases hframes with
  | cons hf _ => exact hf

/-- The parameters and the environments of two procedures, set side by side: parameters are
matched by `ρ`, and a name that is not a parameter means the same in both environments. -/
structure Scopes {β γ : Type} (W : Matching) (ρ : Symbol → Symbol → Prop) (c : Closure β)
    (d : Closure γ) : Prop where
  parameters : List.Forall₂ ρ c.parameters d.parameters
  frames : List.Forall₂ W.frames c.env.chain d.env.chain
  names : ∀ m n, ρ m n → m ∈ c.parameters ∨ W.Resolves c.env.chain m n

theorem Scopes.mono {β γ : Type} {W W' : Matching} (hle : W ≤ W')
    {ρ : Symbol → Symbol → Prop} {c : Closure β} {d : Closure γ}
    (h : W.Scopes ρ c d) :
    W'.Scopes ρ c d := by
  constructor
  · exact h.parameters
  · exact h.frames.imp fun _ _ hf => hle.frames hf
  · intro m n hmn
    cases h.names m n hmn with
    | inl hparameter => exact Or.inl hparameter
    | inr hresolves => exact Or.inr (hresolves.mono hle h.frames)

theorem Scopes.push {β γ : Type} {W : Matching}
    {ρ : Symbol → Symbol → Prop} {c : Closure β} {d : Closure γ}
    (h : W.Scopes ρ c d)
    {f : FrameId} (hf : ∀ g, ¬ W.frames f g) (g : FrameId) :
    (W.withFrame f g ρ c.parameters).Envs ρ (c.env.push f) (d.env.push g) := by
  have hle := le_withFrame hf g ρ c.parameters
  constructor
  · exact .cons (Or.inr ⟨rfl, rfl⟩) (h.frames.imp fun _ _ hab => hle.frames hab)
  · intro m n hmn
    rw [Env.chain_push]
    constructor
    · rw [withFrame_names]
      exact hmn
    · rw [withFrame_binds]
      cases h.names m n hmn with
      | inl hparameter => exact Or.inl hparameter
      | inr hresolves => exact Or.inr (hresolves.mono hle h.frames)

/-!
# Everything standing for itself
-/

def on (frames : FrameId → Prop) (identities : Identity → Prop) : Matching where
  frames f g := f = g ∧ frames f
  identities i j := i = j ∧ identities i
  names _ := Eq
  binds _ _ := False

section

variable {frames : FrameId → Prop} {identities : Identity → Prop}

theorem on_chain {chain : List FrameId}
    (h : ∀ f ∈ chain, frames f) :
    List.Forall₂ (on frames identities).frames chain chain := by
  induction chain with
  | nil => exact .nil
  | cons f rest ih =>
      apply List.Forall₂.cons
      · exact ⟨rfl, h f List.mem_cons_self⟩
      · exact ih fun g hg => h g (List.mem_cons_of_mem f hg)

theorem on_resolves (chain : List FrameId) (m : Symbol) :
    (on frames identities).Resolves chain m m :=
  resolves_self (fun _ _ => rfl) m

theorem on_envs {env : Env}
    (h : ∀ f ∈ env.chain, frames f) :
    (on frames identities).Envs Eq env env := by
  constructor
  · exact on_chain h
  · intro m n hmn
    subst hmn
    exact on_resolves env.chain m

theorem on_biUnique (p : Nat → Prop) :
    Relator.BiUnique fun a b : Nat => a = b ∧ p a :=
  ⟨fun _ _ _ h h' => h.1.trans h'.1.symm, fun _ _ _ h h' => h.1.symm.trans h'.1⟩

end

end Matching

/-!
# Matched values
-/

/-- Values that differ only in matched identities and in like procedures. -/
inductive Value.Matches {β γ : Type} (identities : Identity → Identity → Prop)
    (alike : Closure β → Closure γ → Prop) : Value β → Value γ → Prop where
  | atom (a : Atom) : Matches identities alike (.atom a) (.atom a)
  | list {i j xs ys} :
      identities i j →
      List.Forall₂ (Matches identities alike) xs ys →
      Matches identities alike (.list i xs) (.list j ys)
  | primitive (p : Primitive) : Matches identities alike (.primitive p) (.primitive p)
  | procedure {i j ps qs body body' env env'} :
      identities i j →
      alike ⟨ps, body, env⟩ ⟨qs, body', env'⟩ →
      Matches identities alike (.procedure i ps body env) (.procedure j qs body' env')
  | undefined : Matches identities alike .undefined .undefined

structure Namings where
  relations : Set (Symbol → Symbol → Prop)
  biUnique : ∀ ρ ∈ relations, Relator.BiUnique ρ

theorem biUnique_eq {α : Type} : Relator.BiUnique (Eq : α → α → Prop) :=
  ⟨fun _ _ _ h h' => h.trans h'.symm, fun _ _ _ h h' => h.symm.trans h'⟩

def Namings.same : Namings where
  relations := {Eq}
  biUnique := by
    intro ρ hρ
    subst hρ
    exact biUnique_eq

/-- How the names of new frames are matched, and when procedures count as like under a matching;
they stay so when the matching grows. -/
structure Likeness (β γ : Type) where
  namings : Namings
  alike : Matching → Closure β → Closure γ → Prop
  mono : ∀ {W W' c d}, W ≤ W' → alike W c d → alike W' c d

abbrev Likeness.Values {β γ : Type} (L : Likeness β γ) (W : Matching) :
    Value β → Value γ → Prop :=
  Value.Matches W.identities (L.alike W)

namespace Value.Matches

variable {β γ : Type} {identities identities' : Identity → Identity → Prop}
  {alike alike' : Closure β → Closure γ → Prop}

mutual

theorem imp
    (hids : ∀ {i j}, identities i j → identities' i j)
    (halike : ∀ {c d}, alike c d → alike' c d)
    {v : Value β} {w : Value γ}
    (h : Value.Matches identities alike v w) :
    Value.Matches identities' alike' v w := by
  cases h with
  | atom a => exact .atom a
  | list hid hitems => exact .list (hids hid) (imp_items hids halike hitems)
  | primitive p => exact .primitive p
  | procedure hid hbody => exact .procedure (hids hid) (halike hbody)
  | undefined => exact .undefined
termination_by structural v

theorem imp_items
    (hids : ∀ {i j}, identities i j → identities' i j)
    (halike : ∀ {c d}, alike c d → alike' c d)
    {vs : List (Value β)} {ws : List (Value γ)}
    (h : List.Forall₂ (Value.Matches identities alike) vs ws) :
    List.Forall₂ (Value.Matches identities' alike') vs ws := by
  cases h with
  | nil => exact .nil
  | cons hv hvs => exact .cons (imp hids halike hv) (imp_items hids halike hvs)
termination_by structural vs

end

mutual

theorem text_eq {v : Value β} {w : Value γ}
    (h : Value.Matches identities alike v w) :
    v.text = w.text := by
  cases h with
  | list _ hitems =>
      change Datum.listText (Value.texts _) = Datum.listText (Value.texts _)
      rw [texts_eq hitems]
  | _ => rfl
termination_by structural v

theorem texts_eq {vs : List (Value β)} {ws : List (Value γ)}
    (h : List.Forall₂ (Value.Matches identities alike) vs ws) :
    Value.texts vs = Value.texts ws := by
  cases h with
  | nil => rfl
  | cons hv hvs =>
      change Value.text _ :: Value.texts _ = Value.text _ :: Value.texts _
      rw [text_eq hv, texts_eq hvs]
termination_by structural vs

end

theorem shown_eq {v : Value β} {w : Value γ}
    (h : Value.Matches identities alike v w) :
    v.shown = w.shown := by
  unfold Value.shown
  rw [h.text_eq]

theorem isTrue_eq {v : Value β} {w : Value γ}
    (h : Value.Matches identities alike v w) :
    v.isTrue = w.isTrue := by
  cases h with
  | atom a =>
      cases a with
      | bool b => cases b <;> rfl
      | _ => rfl
  | _ => rfl

theorem isNull_eq {v : Value β} {w : Value γ}
    (h : Value.Matches identities alike v w) :
    v.isNull = w.isNull := by
  cases h with
  | list _ hitems => cases hitems <;> rfl
  | _ => rfl

theorem isPair_eq {v : Value β} {w : Value γ}
    (h : Value.Matches identities alike v w) :
    v.isPair = w.isPair := by
  cases h with
  | list _ hitems => cases hitems <;> rfl
  | _ => rfl

theorem identical_eq (hone : Relator.BiUnique identities)
    {v v' : Value β} {w w' : Value γ}
    (h : Value.Matches identities alike v w)
    (h' : Value.Matches identities alike v' w') :
    v.identical v' = w.identical w' := by
  have hsame : ∀ {i j i' j'}, identities i j → identities i' j' → (i == i') = (j == j') := by
    intro i j i' j' hij hij'
    rw [Bool.eq_iff_iff, beq_iff_eq, beq_iff_eq]
    exact Relator.rel_eq hone hij hij'
  cases h with
  | list hid _ =>
      cases h' with
      | list hid' _ => exact hsame hid hid'
      | _ => rfl
  | procedure hid _ =>
      cases h' with
      | procedure hid' _ => exact hsame hid hid'
      | _ => rfl
  | _ => cases h' <;> rfl

end Value.Matches

theorem Likeness.Values.mono {β γ : Type} {L : Likeness β γ} {W W' : Matching} (hle : W ≤ W')
    {v : Value β} {w : Value γ}
    (h : L.Values W v w) :
    L.Values W' v w :=
  h.imp hle.identities (L.mono hle)

theorem Likeness.Values.mono_each {β γ : Type} {L : Likeness β γ} {W W' : Matching}
    (hle : W ≤ W')
    {vs : List (Value β)} {ws : List (Value γ)}
    (h : List.Forall₂ (L.Values W) vs ws) :
    List.Forall₂ (L.Values W') vs ws :=
  h.imp fun _ _ hv => hv.mono hle

end MiniLisp
