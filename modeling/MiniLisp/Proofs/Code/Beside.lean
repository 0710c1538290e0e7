import MiniLisp.Proofs.Code.Quiet
import MiniLisp.Proofs.Code.Reuse
import MiniLisp.Proofs.Code.Unbounded
import MiniLisp.Proofs.Correspondence.Toplevel

/-!
# Runs with quiet steps in between

One run may do what another run does, with quiet steps of its own in between: frames, lists and
procedures that it makes have no counterpart in the other run.  The two runs still end alike, both
without an answer, both with the same fault, or both with values that are related, in stores that
are matched; they print the same lines.

## Main statements

* `Likeness.Beside.bind`: runs in a row.
* `Likeness.Beside.alternative`, `Likeness.Beside.application`: code whose first parts are quiet.
* `Likeness.Beside.call`: matched values, applied to matched arguments.
-/

namespace MiniLisp

/-- A matching grows by new frames with names matched by one of `N`; the first run may also make
frames that are not matched, and leaves alone those that were not. -/
structure Matching.Spreads {β γ : Type} (N : Namings) (W W' : Matching) (s s' : Store β)
    (t t' : Store γ) : Prop where
  le : W ≤ W'
  frames : ∀ {f g}, W'.frames f g → W.frames f g ∨ s.frames.size ≤ f ∧ W'.names f ∈ N.relations
  left : s.Evolves (fun f => ∃ g, W.frames f g) s'
  printed : ∃ lines, s'.output = s.output ++ lines ∧ t'.output = t.output ++ lines

namespace Matching

variable {β γ : Type} {N : Namings} {W W' W'' : Matching} {s s' s'' : Store β} {t t' t'' : Store γ}

theorem Grows.spreads (h : W.Grows N W' s s' t t') : W.Spreads N W' s s' t t' where
  le := h.le
  frames hfg := (h.frames hfg).imp_right fun hnew => ⟨hnew.1, hnew.2.2⟩
  left := h.left
  printed := h.printed

theorem Spreads.of_undisturbed (W : Matching) (hs : s.Undisturbed s') (t : Store γ) :
    W.Spreads N W s s' t t := by
  refine ⟨le_refl W, Or.inl, hs.evolves.mono fun _ => False.elim, #[], ?_, ?_⟩
  · rw [hs.output_eq, Array.append_empty]
  · rw [Array.append_empty]

theorem Spreads.trans (h : W.Spreads N W' s s' t t') (h' : W'.Spreads N W'' s' s'' t' t'') :
    W.Spreads N W'' s s'' t t'' := by
  refine ⟨h.le.trans h'.le, ?_, ?_, ?_⟩
  · intro f g hfg
    rcases h'.frames hfg with hold | hnew
    · rw [h'.le.names hold]
      exact h.frames hold
    · exact .inr ⟨h.left.size_le.trans hnew.1, hnew.2⟩
  · apply h.left.trans h'.left
    rintro f ⟨g, hfg⟩
    rcases h.frames hfg with hold | hnew
    · exact .inl ⟨g, hold⟩
    · exact .inr hnew.1
  · rcases h.printed with ⟨lines, hs, ht⟩
    rcases h'.printed with ⟨lines', hs', ht'⟩
    exact ⟨lines ++ lines', by rw [hs', hs, Array.append_assoc],
      by rw [ht', ht, Array.append_assoc]⟩

end Matching

/-- How two runs from matched stores end that do the same but for quiet steps; `R` relates their
values. -/
inductive Likeness.Beside {β γ α α' : Type} (L : Likeness β γ) (W : Matching)
    (R : Matching → α → α' → Prop) (s : Store β) (t : Store γ) :
    Option (Except Fault α × Store β) → Option (Except Fault α' × Store γ) → Prop where
  | unanswered : Beside L W R s t none none
  | value {W' a a' s' t'} :
      W.Spreads L.namings W' s s' t t' →
      L.Stores W' s' t' →
      R W' a a' →
      Beside L W R s t (some (.ok a, s')) (some (.ok a', t'))
  | fault {W' fault s' t'} :
      W.Spreads L.namings W' s s' t t' →
      L.Stores W' s' t' →
      Beside L W R s t (some (.error fault, s')) (some (.error fault, t'))

theorem Likeness.Stores.of_undisturbed {β γ : Type} {L : Likeness β γ} {W : Matching}
    {s s' : Store β} {t : Store γ} (h : L.Stores W s t) (hs : s.Undisturbed s') :
    L.Stores W s' t :=
  h.of_evolves (hs.evolves.mono fun _ => False.elim) (.refl t)

namespace Likeness.Beside

section

variable {β γ α α' δ δ' : Type} {L : Likeness β γ} {W W' : Matching}
  {R : Matching → α → α' → Prop} {S : Matching → δ → δ' → Prop} {s s' : Store β} {t t' : Store γ}

theorem of_endings {x : Option (Except Fault α × Store β)}
    {y : Option (Except Fault α' × Store γ)} (h : L.Endings W R s t x y) :
    L.Beside W R s t x y := by
  cases h with
  | unanswered => exact .unanswered
  | value hgrows hstores hvalue => exact .value hgrows.spreads hstores hvalue
  | fault hgrows hstores => exact .fault hgrows.spreads hstores

theorem of_spreads (h : W.Spreads L.namings W' s s' t t')
    {x : Option (Except Fault α × Store β)} {y : Option (Except Fault α' × Store γ)}
    (hends : L.Beside W' R s' t' x y) :
    L.Beside W R s t x y := by
  cases hends with
  | unanswered => exact .unanswered
  | value hspreads hstores hvalue => exact .value (h.trans hspreads) hstores hvalue
  | fault hspreads hstores => exact .fault (h.trans hspreads) hstores

theorem of_undisturbed (hs : s.Undisturbed s') {x : Option (Except Fault α × Store β)}
    {y : Option (Except Fault α' × Store γ)} (h : L.Beside W R s' t x y) :
    L.Beside W R s t x y :=
  h.of_spreads (.of_undisturbed W hs t)

/-- Runs in a row: what comes after the first ones has to end alike from where they end. -/
theorem bind {a : Run β α} {b : Run γ α'} {f : α → Run β δ} {g : α' → Run γ δ'}
    (h : L.Beside W R s t (a s) (b t))
    (hfg : ∀ W' x y s' t', b t = some (.ok y, t') → W.Spreads L.namings W' s s' t t' →
      L.Stores W' s' t' → R W' x y → L.Beside W' S s' t' (f x s') (g y t')) :
    L.Beside W S s t ((a >>= f) s) ((b >>= g) t) := by
  rw [Run.bind_eq, Run.bind_eq]
  revert h hfg
  generalize a s = x
  generalize b t = y
  intro h hfg
  cases h with
  | unanswered => exact .unanswered
  | value hspreads hstores hvalue =>
      exact (hfg _ _ _ _ _ rfl hspreads hstores hvalue).of_spreads hspreads
  | fault hspreads hstores => exact .fault hspreads hstores

theorem pure_right (hstores : L.Stores W s t) (hs : s.Undisturbed s') {x : α} {y : α'}
    (h : R W x y) :
    L.Beside W R s t (some (.ok x, s')) ((pure y : Run γ α') t) :=
  .value (.of_undisturbed W hs t) (hstores.of_undisturbed hs) h

end

/-!
# Code whose first parts are quiet
-/

variable {γ α' : Type} {L : Likeness Code γ} {W : Matching} {R : Matching → Val → α' → Prop}
  {env : Env} {s : Store Code} {t : Store γ} {operator : Code}
  {y : Option (Except Fault α' × Store γ)}

theorem alternative {test consequent alternative : Code}
    (htest : test.Gives env s (· = .bool false)) (hstores : L.Stores W s t)
    (h : ∀ u, s.Undisturbed u → L.Stores W u t → L.Beside W R u t (alternative.eval env u) y) :
    L.Beside W R s t ((Code.branch test consequent alternative).eval env s) y := by
  rcases htest s (.refl s) with ⟨_, u, hv, hsu, rfl⟩
  rw [Code.eval_branch, Run.bind_of_ok hv.eval_eq]
  exact (h u hsu (hstores.of_undisturbed hsu)).of_undisturbed hsu

theorem application {operands : List Code} {F : Val → Prop} {Ps : List (Val → Prop)}
    (hoperator : operator.Gives env s F)
    (hoperands : List.Forall₂ (fun operand P => Code.Gives operand env s P) operands Ps)
    (hstores : L.Stores W s t)
    (h : ∀ u f vs, s.Undisturbed u → L.Stores W u t → F f →
      List.Forall₂ (fun v P => P v) vs Ps → L.Beside W R u t (f.call vs u) y) :
    L.Beside W R s t ((Code.application operator operands).eval env s) y := by
  rcases hoperator s (.refl s) with ⟨f, m, hf, hsm, hF⟩
  rcases Code.givesEach hoperands m hsm with ⟨vs, u, hvs, hmu, hPs⟩
  have hsu := hsm.trans hmu
  rw [Code.eval_application, Run.bind_of_ok hf.eval_eq, Run.bind_of_ok hvs.mapM_eval_eq]
  exact (h u f vs hsu (hstores.of_undisturbed hsu) hF hPs).of_undisturbed hsu

/-- Matched values do the same to matched arguments. -/
theorem call {N : Namings} {s t : Store Code} (hstores : (Code.likeness N).Stores W s t)
    {f f' : Val} (hf : (Code.likeness N).Values W f f') {vs ws : List Val}
    (hvs : List.Forall₂ ((Code.likeness N).Values W) vs ws) :
    (Code.likeness N).Beside W (Code.likeness N).Values s t (f.call vs s) (f'.call ws t) := by
  have hruns := Likeness.Runs.unbounded (f.apply_deepens vs) (f'.apply_deepens ws) fun depth =>
    Likeness.Runs.applyWith
      (fun _ _ _ _ halike hvs => Code.call_runs depth halike hvs) hf hvs
  exact of_endings (hruns s t hstores)

end Likeness.Beside

/-!
# Doing the same from one store
-/

open Code (sameness)

section

variable {α β : Type} {r : α → β → Prop} {x : Option α} {y : Option β}

theorem exists_right_of_rel (h : Option.Rel r x y) {a : α} (hx : x = some a) :
    ∃ b, y = some b ∧ r a b := by
  cases h with
  | some hab =>
      cases hx
      exact ⟨_, rfl, hab⟩
  | none => cases hx

theorem exists_left_of_rel (h : Option.Rel r x y) {b : β} (hy : y = some b) :
    ∃ a, x = some a ∧ r a b := by
  cases h with
  | some hab =>
      cases hy
      exact ⟨_, rfl, hab⟩
  | none => cases hy

end

namespace Store

variable {α α' : Type}

/-- How two runs from a store end that do the same: with related values or the same fault, having
printed the same lines, in stores in which everything that was there stands for itself, and what
stands for each other has the same contents. -/
structure EndsSame (s : Store Code) (R : Matching → α → α' → Prop) (W : Matching)
    (e : Except Fault α × Store Code) (e' : Except Fault α' × Store Code) : Prop where
  frames_biUnique : Relator.BiUnique W.frames
  identities_biUnique : Relator.BiUnique W.identities
  frames_self : ∀ f, f < s.frames.size → W.frames f f
  identities_self : ∀ i, i < s.nextIdentity → W.identities i i
  contents : ∀ f g, W.frames f g →
    Frame.Matches Eq (sameness.Values W) (e.2.frame f) (e'.2.frame g)
  result : Results (R W) e.1 e'.1
  printed : ∃ lines, e.2.output = s.output ++ lines ∧ e'.2.output = s.output ++ lines

/-- Whether runs that nest as deep as they need do what other runs do: if either end, so do the
others, in the same way. -/
def DoSame (s : Store Code) (R : Matching → α → α' → Prop) (a : Nat → Run Code α)
    (b : Nat → Run Code α') : Prop :=
  (∀ depth e, a depth s = some e → ∃ deep e' W, b deep s = some e' ∧ s.EndsSame R W e e') ∧
    ∀ depth e', b depth s = some e' → ∃ deep e W, a deep s = some e ∧ s.EndsSame R W e e'

variable {s t t' : Store Code} {R : Matching → α → α' → Prop} {W : Matching}

theorem endsSame_of_spreads (hspreads : s.self.Spreads .same W s t s t')
    (hstores : sameness.Stores W t t') {r : Except Fault α} {r' : Except Fault α'}
    (hresult : Results (R W) r r') :
    s.EndsSame R W (r, t) (r', t') := by
  have hnames : ∀ {f g}, W.frames f g → W.names f = Eq := by
    intro f g hfg
    rcases hspreads.frames hfg with hold | ⟨_, hnew⟩
    · exact hspreads.le.names hold
    · exact hnew
  constructor
  · exact hstores.frames_biUnique
  · exact hstores.identities_biUnique
  · exact fun f hf => hspreads.le.frames ⟨rfl, hf⟩
  · exact fun i hi => hspreads.le.identities ⟨rfl, hi⟩
  · intro f g hfg
    have hbindings := hstores.bindings hfg
    rw [hnames hfg] at hbindings
    exact hbindings
  · exact hresult
  · exact hspreads.printed

theorem doSame_of_beside {a : Nat → Run Code α} {b : Nat → Run Code α'} (ha : Run.Deepens a)
    (hb : Run.Deepens b)
    (h : sameness.Beside s.self R s s (Run.unbounded a s) (Run.unbounded b s)) :
    s.DoSame R a b := by
  have hrel : Option.Rel (fun e e' => ∃ W, s.EndsSame R W e e') (Run.unbounded a s)
      (Run.unbounded b s) := by
    revert h
    generalize Run.unbounded a s = x
    generalize Run.unbounded b s = y
    intro h
    cases h with
    | unanswered => exact .none
    | value hspreads hstores hvalue =>
        exact .some ⟨_, endsSame_of_spreads hspreads hstores (.ok hvalue)⟩
    | fault hspreads hstores => exact .some ⟨_, endsSame_of_spreads hspreads hstores (.error _)⟩
  constructor
  · intro depth e he
    rcases exists_right_of_rel hrel ((Run.unbounded_eq_some_iff ha).mpr ⟨depth, he⟩) with
      ⟨e', he', W, hsame⟩
    rcases (Run.unbounded_eq_some_iff hb).mp he' with ⟨deep, hdeep⟩
    exact ⟨deep, e', W, hdeep, hsame⟩
  · intro depth e' he'
    rcases exists_left_of_rel hrel ((Run.unbounded_eq_some_iff hb).mpr ⟨depth, he'⟩) with
      ⟨e, he, W, hsame⟩
    rcases (Run.unbounded_eq_some_iff ha).mp he with ⟨deep, hdeep⟩
    exact ⟨deep, e, W, hdeep, hsame⟩

end Store
end MiniLisp
