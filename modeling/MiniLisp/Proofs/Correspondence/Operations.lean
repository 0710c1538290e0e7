import MiniLisp.Code.Evaluation
import MiniLisp.Proofs.Correspondence.Runs

/-!
# Operations on matched stores

Every operation that a run is made of is matched with itself, on matched operands: names in
environments, new lists and procedures, printing, primitives and application.
-/

namespace MiniLisp

/-!
# What primitives make of matched arguments
-/

namespace Primitive

variable {β γ : Type} {identities : Identity → Identity → Prop}
  {alike : Closure β → Closure γ → Prop}

theorem argument_matches {vs : List (Value β)} {ws : List (Value γ)}
    (h : List.Forall₂ (Value.Matches identities alike) vs ws) (position : Nat) :
    Value.Matches identities alike (argument vs position) (argument ws position) := by
  induction h generalizing position with
  | nil => exact .undefined
  | cons hv _ ih =>
      cases position with
      | zero => exact hv
      | succ position => exact ih position

theorem number_eq (p : Primitive) {v : Value β} {w : Value γ}
    (h : Value.Matches identities alike v w) :
    number p v = number p w := by
  have hshown := h.shown_eq
  cases h with
  | atom a => cases a <;> simp only [number, hshown]
  | _ => simp only [number, hshown]

theorem foldFrom_eq (p : Primitive) (f : Float → Float → Float) (x : Float)
    {vs : List (Value β)} {ws : List (Value γ)}
    (h : List.Forall₂ (Value.Matches identities alike) vs ws) :
    foldFrom p f x vs = foldFrom p f x ws := by
  induction h generalizing x with
  | nil => rfl
  | @cons v w vs ws hv _ ih =>
      simp only [foldFrom]
      rw [number_eq p hv]
      cases number p w with
      | ok y => exact ih (f x y)
      | error cause => rfl

theorem fold_eq (p : Primitive) (f : Float → Float → Float) (seed : Float)
    {vs : List (Value β)} {ws : List (Value γ)}
    (h : List.Forall₂ (Value.Matches identities alike) vs ws) :
    fold p f seed vs = fold p f seed ws := by
  cases h with
  | nil => rfl
  | @cons v w vs ws hv hvs =>
      simp only [fold]
      rw [number_eq p hv]
      cases number p w with
      | ok x => exact foldFrom_eq p f x hvs
      | error cause => rfl

theorem items_matches (p : Primitive) {v : Value β} {w : Value γ}
    (h : Value.Matches identities alike v w) :
    Results (List.Forall₂ (Value.Matches identities alike)) (items p v) (items p w) := by
  have hshown := h.shown_eq
  cases h with
  | list _ hitems => exact .ok hitems
  | _ =>
      simp only [items, hshown]
      exact .error _

theorem consItems_matches {v v' : Value β} {w w' : Value γ}
    (h : Value.Matches identities alike v w) (h' : Value.Matches identities alike v' w') :
    List.Forall₂ (Value.Matches identities alike) (consItems v v') (consItems w w') := by
  cases h' with
  | list _ hitems => exact .cons h hitems
  | atom a => exact .cons h (.cons (.atom a) .nil)
  | primitive p => exact .cons h (.cons (.primitive p) .nil)
  | procedure hid hbody => exact .cons h (.cons (.procedure hid hbody) .nil)
  | undefined => exact .cons h (.cons .undefined .nil)

theorem characterText_eq {v : Value β} {w : Value γ}
    (h : Value.Matches identities alike v w) :
    characterText v = characterText w := by
  have hshown := h.shown_eq
  have hnumber : v.number? = w.number? := by
    cases h with
    | atom a => cases a <;> rfl
    | _ => rfl
  simp only [characterText, hshown, hnumber]

theorem alertText_eq {v : Value β} {w : Value γ}
    (h : Value.Matches identities alike v w) :
    alertText v = alertText w := by
  have hshown := h.shown_eq
  cases h with
  | atom a => cases a <;> simp only [alertText, hshown]
  | _ => simp only [alertText, hshown]

theorem head_matches {vs : List (Value β)} {ws : List (Value γ)}
    (h : List.Forall₂ (Value.Matches identities alike) vs ws) :
    Value.Matches identities alike (vs.head?.getD .undefined) (ws.head?.getD .undefined) := by
  cases h with
  | nil => exact .undefined
  | cons hv _ => exact hv

end Primitive

/-!
# What becomes of a name
-/

namespace Run

variable {β : Type} {env : Env} {name : Symbol} {s : Store β}

theorem lookup_of_some {v : Value β}
    (h : s.lookup? env name = some v) :
    lookup env name s = some (.ok v, s) := by
  simp only [lookup, ExceptT.mk, h]

theorem lookup_of_none
    (h : s.lookup? env name = none) :
    lookup env name s = some (.error { cause := .unbound name }, s) := by
  simp only [lookup, ExceptT.mk, h]

theorem assign_of_holder {id : FrameId}
    (h : s.holder? env name = some id)
    (v : Value β) :
    assign env name v s = some (.ok (), s.bind id name v) := by
  simp only [assign, ExceptT.mk, Store.assign?, h]

theorem assign_of_none
    (h : s.holder? env name = none)
    (v : Value β) :
    assign env name v s = some (.error { cause := .unbound name }, s) := by
  simp only [assign, ExceptT.mk, Store.assign?, h]

theorem lookup_cases {r : Except Fault (Value β)} {t : Store β}
    (h : lookup env name s = some (r, t)) :
    (∃ v, s.lookup? env name = some v ∧ r = .ok v ∧ t = s) ∨
      (s.lookup? env name = none ∧ r = .error { cause := .unbound name } ∧ t = s) := by
  cases hv : s.lookup? env name with
  | some v =>
      rw [lookup_of_some hv] at h
      cases h
      exact .inl ⟨v, rfl, rfl, rfl⟩
  | none =>
      rw [lookup_of_none hv] at h
      cases h
      exact .inr ⟨rfl, rfl, rfl⟩

theorem assign_cases {v : Value β} {r : Except Fault Unit} {t : Store β}
    (h : assign env name v s = some (r, t)) :
    (∃ id, s.holder? env name = some id ∧ r = .ok () ∧ t = s.bind id name v) ∨
      (s.holder? env name = none ∧ r = .error { cause := .unbound name } ∧ t = s) := by
  cases hholder : s.holder? env name with
  | some id =>
      rw [assign_of_holder hholder] at h
      cases h
      exact .inl ⟨id, rfl, rfl, rfl⟩
  | none =>
      rw [assign_of_none hholder] at h
      cases h
      exact .inr ⟨rfl, rfl, rfl⟩

end Run

namespace Likeness.Runs

variable {β γ : Type} {L : Likeness β γ} {W : Matching}

/-!
# Names
-/

theorem lookup {ρ : Symbol → Symbol → Prop} {env env' : Env} (henv : W.Envs ρ env env')
    {m n : Symbol} (hmn : ρ m n) :
    L.Runs W L.Values (Run.lookup env m) (Run.lookup env' n) := by
  intro s t hstores
  rcases hstores.lookup? henv hmn with ⟨v, w, hv, hw, hvw⟩ | ⟨hv, hw, rfl⟩
  · rw [Run.lookup_of_some hv, Run.lookup_of_some hw]
    exact .value (.refl W s t) hstores hvw
  · rw [Run.lookup_of_none hv, Run.lookup_of_none hw]
    exact .fault (.refl W s t) hstores

theorem define {ρ : Symbol → Symbol → Prop} {env env' : Env} (henv : W.Envs ρ env env')
    {m n : Symbol} (hmn : ρ m n)
    {v : Value β} {w : Value γ} (hvw : L.Values W v w) :
    L.Runs W (fun _ => Eq) (Run.define env m v) (Run.define env' n w) := by
  intro s t hstores
  have hnames : W.names env.innermost m n := (henv.names m n hmn).1
  exact .value (.bind henv.innermost m n v w) (hstores.bind henv.innermost hnames hvw) rfl

theorem assign {ρ : Symbol → Symbol → Prop} {env env' : Env} (henv : W.Envs ρ env env')
    {m n : Symbol} (hmn : ρ m n)
    {v : Value β} {w : Value γ} (hvw : L.Values W v w) :
    L.Runs W (fun _ => Eq) (Run.assign env m v) (Run.assign env' n w) := by
  intro s t hstores
  rcases hstores.holder? henv hmn with ⟨f, g, hf, hg, hfg, hnames⟩ | ⟨hf, hg, rfl⟩
  · rw [Run.assign_of_holder hf, Run.assign_of_holder hg]
    exact .value (.bind hfg m n v w) (hstores.bind hfg hnames hvw) rfl
  · rw [Run.assign_of_none hf, Run.assign_of_none hg]
    exact .fault (.refl W s t) hstores

/-!
# New things
-/

theorem fresh :
    L.Runs W (fun W' => W'.identities) Run.fresh Run.fresh := by
  intro s t hstores
  exact .value .fresh hstores.fresh (Or.inr ⟨rfl, rfl⟩)

theorem fresh_left {α α' : Type} {R : Matching → α → α' → Prop}
    {a : Identity → Run β α} {b : Run γ α'}
    (h : ∀ id, L.Runs W R (a id) b) :
    L.Runs W R (Run.fresh >>= a) b := by
  intro s t hstores
  rw [Run.bind_eq]
  exact (h _ _ _ hstores.fresh_left).of_grows .fresh_left

theorem makeList {vs : List (Value β)} {ws : List (Value γ)}
    (hvs : List.Forall₂ (L.Values W) vs ws) :
    L.Runs W L.Values (Run.makeList vs) (Run.makeList ws) := by
  intro s t hstores
  have hle := W.le_withIdentity s.nextIdentity t.nextIdentity
  apply Likeness.Endings.value .fresh hstores.fresh
  exact .list (Or.inr ⟨rfl, rfl⟩) (hvs.imp fun _ _ h => h.mono hle)

theorem print (line : String) :
    L.Runs W (fun _ => Eq) (Run.print line) (Run.print line) := by
  intro s t hstores
  exact .value (.print line) (hstores.print line) rfl

theorem extend {ρ : Symbol → Symbol → Prop} (hρ : ρ ∈ L.namings.relations)
    {c : Closure β} {d : Closure γ} (hscopes : W.Scopes ρ c d)
    {vs : List (Value β)} {ws : List (Value γ)} (hvs : List.Forall₂ (L.Values W) vs ws) :
    L.Runs W (fun W' => W'.Envs ρ) (Run.extend c.env c.parameters vs)
      (Run.extend d.env d.parameters ws) := by
  intro s t hstores
  have hone := L.namings.biUnique ρ hρ
  have hframe : Frame.Matches ρ (L.Values W) (Frame.bindAll {} c.parameters vs)
      (Frame.bindAll {} d.parameters ws) :=
    Frame.matches_empty.bindAll hone .undefined hscopes.parameters hvs
  have hbound : ∀ m ∈ c.parameters,
      ((Frame.bindAll {} c.parameters vs).find? m).isSome :=
    fun m hm => Frame.isSome_find?_bindAll {} hm vs
  exact .value (.push hstores.not_frames_size_left hρ c.parameters _ _)
    (hstores.push hone hframe hbound)
    (hscopes.push hstores.not_frames_size_left t.frames.size)

/-!
# Application
-/

theorem ofExcept_atom {α : Type} (a : Except Fault.Cause α) (f : α → Atom) :
    L.Runs W L.Values (Run.ofExcept a >>= fun x => Pure.pure (.atom (f x)))
      (Run.ofExcept a >>= fun x => Pure.pure (.atom (f x))) := by
  have hsame : Results Eq a a := by
    cases a with
    | ok x => exact .ok rfl
    | error cause => exact .error cause
  apply bind (R := fun _ => Eq) (ofExcept hsame)
  intro W' x y _ hxy
  subst hxy
  exact pure (.atom (f x))

theorem primitive (p : Primitive) {vs : List (Value β)} {ws : List (Value γ)}
    (hvs : List.Forall₂ (L.Values W) vs ws) :
    L.Runs W L.Values (p.apply vs) (p.apply ws) := by
  have hfirst := Primitive.argument_matches hvs 0
  have hsecond := Primitive.argument_matches hvs 1
  have harithmetic : ∀ (f : Float → Float → Float) (seed : Float),
      L.Runs W L.Values
        (Run.ofExcept (Primitive.fold p f seed vs) >>= fun x => Pure.pure (.number x))
        (Run.ofExcept (Primitive.fold p f seed ws) >>= fun x => Pure.pure (.number x)) := by
    intro f seed
    rw [Primitive.fold_eq p f seed hvs]
    exact ofExcept_atom _ .number
  cases p with
  | add => exact harithmetic _ _
  | subtract => exact harithmetic _ _
  | multiply => exact harithmetic _ _
  | divide => exact harithmetic _ _
  | remainder => exact harithmetic _ _
  | cons => exact makeList (Primitive.consItems_matches hfirst hsecond)
  | car =>
      apply bind (ofExcept (R := fun W' => List.Forall₂ (L.Values W'))
        (Primitive.items_matches .car hfirst))
      intro W' xs ys _ hxs
      exact pure (Primitive.head_matches hxs)
  | cdr =>
      apply bind (ofExcept (R := fun W' => List.Forall₂ (L.Values W'))
        (Primitive.items_matches .cdr hfirst))
      intro W' xs ys _ hxs
      exact makeList (List.forall₂_drop 1 hxs)
  | list => exact makeList hvs
  | chr =>
      have htext := Primitive.characterText_eq hfirst
      change L.Runs W L.Values
        (Run.ofExcept (Primitive.characterText (Primitive.argument vs 0)) >>= _)
        (Run.ofExcept (Primitive.characterText (Primitive.argument ws 0)) >>= _)
      rw [htext]
      exact ofExcept_atom _ .string
  | identical =>
      intro s t hstores
      have hsame := hfirst.identical_eq hstores.identities_biUnique hsecond
      apply pure (L := L) (W := W) (R := L.Values) _ s t hstores
      rw [hsame]
      exact .atom _
  | null =>
      apply pure
      rw [hfirst.isNull_eq]
      exact .atom _
  | pair =>
      apply pure
      rw [hfirst.isPair_eq]
      exact .atom _
  | alert =>
      have htext := Primitive.alertText_eq hfirst
      change L.Runs W L.Values
        (Run.print (Primitive.alertText (Primitive.argument vs 0)) >>= _)
        (Run.print (Primitive.alertText (Primitive.argument ws 0)) >>= _)
      rw [htext]
      apply bind (print _)
      intro W' _ _ _ _
      exact pure .undefined

theorem applyWith {f : β → Env → Run β (Value β)} {g : γ → Env → Run γ (Value γ)}
    (hbody : ∀ c d vs ws, L.alike W c d → List.Forall₂ (L.Values W) vs ws →
      L.Runs W L.Values (Run.extend c.env c.parameters vs >>= f c.body)
        (Run.extend d.env d.parameters ws >>= g d.body))
    {operator : Value β} {operator' : Value γ} (hoperator : L.Values W operator operator')
    {vs : List (Value β)} {ws : List (Value γ)} (hvs : List.Forall₂ (L.Values W) vs ws) :
    L.Runs W L.Values (operator.applyWith f vs) (operator'.applyWith g ws) := by
  have hshown := hoperator.shown_eq
  cases hoperator with
  | primitive p => exact primitive p hvs
  | procedure _ halike => exact hbody _ _ vs ws halike hvs
  | _ =>
      simp only [Value.applyWith]
      rw [hshown]
      exact fail _

end Likeness.Runs
end MiniLisp
