import MiniLisp.Proofs.Code.Alike

/-!
# Regions of a store

A region is a set of frames together with a set of identities.  A value or code is within a region
if it refers to nothing else, and a region of a store is closed if what its frames bind is within
it.  The store is matched with itself on a closed region, everything standing for itself.
-/

namespace MiniLisp

mutual

/-- Whether a value refers to the frames and identities of a region only. -/
def Value.Within (frames : FrameId → Prop) (identities : Identity → Prop) : Value Code → Prop
  | .list id items => identities id ∧ Value.AllWithin frames identities items
  | .procedure id _ body env =>
      identities id ∧ (∀ f ∈ env.chain, frames f) ∧ Code.Within frames identities body
  | _ => True

def Value.AllWithin (frames : FrameId → Prop) (identities : Identity → Prop) :
    List (Value Code) → Prop
  | [] => True
  | v :: vs => Value.Within frames identities v ∧ Value.AllWithin frames identities vs

def Code.Within (frames : FrameId → Prop) (identities : Identity → Prop) : Code → Prop
  | .literal v => Value.Within frames identities v
  | .reference _ => True
  | .branch test consequent alternative =>
      Code.Within frames identities test ∧ Code.Within frames identities consequent ∧
        Code.Within frames identities alternative
  | .andThen first second =>
      Code.Within frames identities first ∧ Code.Within frames identities second
  | .application operator operands =>
      Code.Within frames identities operator ∧ Code.AllWithin frames identities operands
  | .define _ value => Code.Within frames identities value
  | .assign _ value => Code.Within frames identities value
  | .lambda _ body => Code.Within frames identities body

def Code.AllWithin (frames : FrameId → Prop) (identities : Identity → Prop) :
    List Code → Prop
  | [] => True
  | c :: cs => Code.Within frames identities c ∧ Code.AllWithin frames identities cs

end

mutual

theorem Value.within_everything (v : Value Code) :
    v.Within (fun _ => True) (fun _ => True) := by
  cases v with
  | list id items => exact ⟨trivial, Value.allWithin_everything items⟩
  | procedure id ps body env =>
      exact ⟨trivial, fun _ _ => trivial, Code.within_everything body⟩
  | _ => simp only [Value.Within]
termination_by structural v

theorem Value.allWithin_everything (vs : List (Value Code)) :
    Value.AllWithin (fun _ => True) (fun _ => True) vs := by
  cases vs with
  | nil => exact trivial
  | cons v vs => exact ⟨Value.within_everything v, Value.allWithin_everything vs⟩
termination_by structural vs

theorem Code.within_everything (code : Code) :
    code.Within (fun _ => True) (fun _ => True) := by
  cases code with
  | literal v => exact Value.within_everything v
  | reference name => exact trivial
  | branch test consequent alternative =>
      exact ⟨Code.within_everything test, Code.within_everything consequent,
        Code.within_everything alternative⟩
  | andThen first second =>
      exact ⟨Code.within_everything first, Code.within_everything second⟩
  | application operator operands =>
      exact ⟨Code.within_everything operator, Code.allWithin_everything operands⟩
  | define name value => exact Code.within_everything value
  | assign name value => exact Code.within_everything value
  | lambda ps body => exact Code.within_everything body
termination_by structural code

theorem Code.allWithin_everything (codes : List Code) :
    Code.AllWithin (fun _ => True) (fun _ => True) codes := by
  cases codes with
  | nil => exact trivial
  | cons c cs => exact ⟨Code.within_everything c, Code.allWithin_everything cs⟩
termination_by structural codes

end

/-- A region that is in use and that nothing bound in it leads out of. -/
structure Store.Closed (frames : FrameId → Prop) (identities : Identity → Prop)
    (s : Store Code) : Prop where
  frames_lt : ∀ f, frames f → f < s.frames.size
  identities_lt : ∀ i, identities i → i < s.nextIdentity
  bindings : ∀ f name v, frames f → s.find? f name = some v → v.Within frames identities

/-- Nothing that is bound in the store refers to anything that is not there. -/
abbrev Store.Intact (s : Store Code) : Prop :=
  s.Closed (fun f => f < s.frames.size) (fun i => i < s.nextIdentity)

abbrev Store.Holds (s : Store Code) (v : Val) : Prop :=
  v.Within (fun f => f < s.frames.size) (fun i => i < s.nextIdentity)

/-- In a store everything stands for itself. -/
abbrev Store.self (s : Store Code) : Matching :=
  Matching.on (fun f => f < s.frames.size) (fun i => i < s.nextIdentity)

variable {frames : FrameId → Prop} {identities : Identity → Prop}
  {N : Namings}

/-!
# Everything within a region is like itself
-/

mutual

theorem Value.Within.matches_self (hN : Eq ∈ N.relations) {v : Value Code}
    (h : v.Within frames identities) :
    (Code.likeness N).Values (Matching.on frames identities) v v := by
  cases v with
  | atom a => exact .atom a
  | list id items => exact .list ⟨rfl, h.1⟩ (Value.AllWithin.matches_self hN h.2)
  | primitive p => exact .primitive p
  | procedure id ps body env =>
      apply Value.Matches.procedure ⟨rfl, h.1⟩
      apply Closure.Alike.intro hN
      · constructor
        · exact List.forall₂_same.mpr fun _ _ => rfl
        · exact Matching.on_chain h.2.1
        · intro m n hmn
          subst hmn
          exact Or.inr (Matching.on_resolves env.chain m)
      · exact Code.Within.alike_self hN h.2.2
  | undefined => exact .undefined
termination_by structural v

theorem Value.AllWithin.matches_self (hN : Eq ∈ N.relations) {vs : List (Value Code)}
    (h : Value.AllWithin frames identities vs) :
    List.Forall₂ ((Code.likeness N).Values (Matching.on frames identities)) vs vs := by
  cases vs with
  | nil => exact .nil
  | cons v vs =>
      exact .cons (Value.Within.matches_self hN h.1) (Value.AllWithin.matches_self hN h.2)
termination_by structural vs

theorem Code.Within.alike_self (hN : Eq ∈ N.relations) {code : Code}
    (h : code.Within frames identities) :
    Code.Alike N (Matching.on frames identities) Eq code code := by
  cases code with
  | literal v => exact .literal (Value.Within.matches_self hN h)
  | reference name => exact .reference rfl
  | branch test consequent alternative =>
      exact .branch (Code.Within.alike_self hN h.1) (Code.Within.alike_self hN h.2.1)
        (Code.Within.alike_self hN h.2.2)
  | andThen first second =>
      exact .andThen (Code.Within.alike_self hN h.1) (Code.Within.alike_self hN h.2)
  | application operator operands =>
      exact .application (Code.Within.alike_self hN h.1) (Code.AllWithin.alike_self hN h.2)
  | define name value => exact .define rfl (Code.Within.alike_self hN h)
  | assign name value => exact .assign rfl (Code.Within.alike_self hN h)
  | lambda ps body =>
      exact .lambda (List.forall₂_same.mpr fun _ _ => rfl) (Code.Within.alike_self hN h)
termination_by structural code

theorem Code.AllWithin.alike_self (hN : Eq ∈ N.relations) {codes : List Code}
    (h : Code.AllWithin frames identities codes) :
    Code.AlikeEach N (Matching.on frames identities) Eq codes codes := by
  cases codes with
  | nil => exact .nil
  | cons c cs =>
      exact .cons (Code.Within.alike_self hN h.1) (Code.AllWithin.alike_self hN h.2)
termination_by structural codes

end

theorem Store.Closed.stores_self (hN : Eq ∈ N.relations) {s : Store Code}
    (h : s.Closed frames identities) :
    (Code.likeness N).Stores (Matching.on frames identities) s s := by
  constructor
  · intro f g hfg
    rcases hfg with ⟨rfl, hf⟩
    exact ⟨h.frames_lt f hf, h.frames_lt f hf⟩
  · intro i j hij
    rcases hij with ⟨rfl, hi⟩
    exact ⟨h.identities_lt i hi, h.identities_lt i hi⟩
  · exact Matching.on_biUnique frames
  · exact Matching.on_biUnique identities
  · intro f g _
    exact biUnique_eq
  · intro f g hfg m n hmn
    rcases hfg with ⟨rfl, hf⟩
    subst hmn
    cases hfound : (s.frame f).find? m with
    | none => exact .none
    | some v => exact .some ((h.bindings f m v hf hfound).matches_self hN)
  · intro f g m _ hm
    cases hm

theorem Store.Closed.endings_self {s : Store Code} (hs : s.Closed frames identities)
    {code : Code} (hcode : code.Within frames identities)
    {env : Env} (henv : ∀ f ∈ env.chain, frames f) (depth : Nat) :
    (Code.likeness .same).Endings (Matching.on frames identities) (Code.likeness .same).Values s s
      (code.run depth env s) (code.run depth env s) := by
  have hself : Eq ∈ Namings.same.relations := rfl
  exact (hcode.alike_self hself).runs depth hself (Matching.on_envs henv) s s
    (hs.stores_self hself)

/-!
# Stores stay intact

What is matched is within the matching, so a store that is matched with itself refers to nothing
else.
-/

section

variable {W : Matching}

mutual

theorem Code.within_of_matches
    (hframes : ∀ {f g}, W.frames f g → frames f)
    (hids : ∀ {i j}, W.identities i j → identities i)
    {v w : Value Code} (h : (Code.likeness N).Values W v w) :
    v.Within frames identities := by
  cases h with
  | list hid hitems => exact ⟨hids hid, Code.allWithin_of_matches hframes hids hitems⟩
  | procedure hid halike =>
      cases halike with
      | intro _ hscopes hbody =>
          refine ⟨hids hid, ?_, Code.within_of_alike hframes hids hbody⟩
          intro f hf
          rcases List.mem_iff_getElem.mp hf with ⟨k, hk, rfl⟩
          exact hframes (hscopes.frames.get hk (hscopes.frames.length_eq ▸ hk))
  | _ => exact trivial
termination_by structural v

theorem Code.allWithin_of_matches
    (hframes : ∀ {f g}, W.frames f g → frames f)
    (hids : ∀ {i j}, W.identities i j → identities i)
    {vs ws : List (Value Code)} (h : List.Forall₂ ((Code.likeness N).Values W) vs ws) :
    Value.AllWithin frames identities vs := by
  cases h with
  | nil => exact trivial
  | cons hv hvs =>
      exact ⟨Code.within_of_matches hframes hids hv, Code.allWithin_of_matches hframes hids hvs⟩
termination_by structural vs

theorem Code.within_of_alike
    (hframes : ∀ {f g}, W.frames f g → frames f)
    (hids : ∀ {i j}, W.identities i j → identities i)
    {ρ : Symbol → Symbol → Prop} {c d : Code} (h : Code.Alike N W ρ c d) :
    c.Within frames identities := by
  cases h with
  | literal hv => exact Code.within_of_matches hframes hids hv
  | reference => exact trivial
  | branch ht hc ha =>
      exact ⟨Code.within_of_alike hframes hids ht, Code.within_of_alike hframes hids hc,
        Code.within_of_alike hframes hids ha⟩
  | andThen hfirst hsecond =>
      exact ⟨Code.within_of_alike hframes hids hfirst, Code.within_of_alike hframes hids hsecond⟩
  | application hf hxs =>
      exact ⟨Code.within_of_alike hframes hids hf, Code.allWithin_of_alikeEach hframes hids hxs⟩
  | @define _ _ _ value _ _ hv =>
      change value.Within frames identities
      exact Code.within_of_alike hframes hids hv
  | @assign _ _ _ value _ _ hv =>
      change value.Within frames identities
      exact Code.within_of_alike hframes hids hv
  | @lambda _ _ _ body _ _ hbody =>
      change body.Within frames identities
      exact Code.within_of_alike hframes hids hbody
termination_by structural c

theorem Code.allWithin_of_alikeEach
    (hframes : ∀ {f g}, W.frames f g → frames f)
    (hids : ∀ {i j}, W.identities i j → identities i)
    {ρ : Symbol → Symbol → Prop} {cs ds : List Code} (h : Code.AlikeEach N W ρ cs ds) :
    Code.AllWithin frames identities cs := by
  cases h with
  | nil => exact trivial
  | cons hc hcs =>
      exact ⟨Code.within_of_alike hframes hids hc, Code.allWithin_of_alikeEach hframes hids hcs⟩
termination_by structural cs

end

end

theorem Store.Intact.of_grows {s s' : Store Code} {W : Matching}
    (hgrows : s.self.Grows .same W s s' s s')
    (hstores : (Code.likeness .same).Stores W s' s') :
    s'.Intact := by
  constructor
  · exact fun f hf => hf
  · exact fun i hi => hi
  · intro f name v hf hfound
    have hmatched : ∃ g, W.frames f g := by
      by_cases hold : f < s.frames.size
      · exact ⟨f, hgrows.le.frames ⟨rfl, hold⟩⟩
      · exact hgrows.left_new f (Nat.le_of_not_lt hold) hf
    rcases hmatched with ⟨g, hfg⟩
    have hnames : W.names f = Eq := by
      cases hgrows.frames hfg with
      | inl hold => exact hgrows.le.names hold
      | inr hnew => exact hnew.2.2
    have hbindings := hstores.bindings hfg name name (by rw [hnames])
    change (s'.frame f).find? name = some v at hfound
    rw [hfound] at hbindings
    cases hw : (s'.frame g).find? name with
    | none =>
        rw [hw] at hbindings
        cases hbindings
    | some w =>
        rw [hw] at hbindings
        cases hbindings with
        | some hvw =>
            exact Code.within_of_matches (fun hfg => (hstores.frames_lt hfg).1)
              (fun hij => (hstores.identities_lt hij).1) hvw

/-!
# What stands for itself only
-/

section

variable {frames : FrameId → Prop} {identities : Identity → Prop} {W : Matching}

theorem forall₂_eq_self {α : Type} {r : α → α → Prop} {xs ys : List α} (h : List.Forall₂ r xs ys)
    (hr : ∀ x, ∀ y ∈ ys, r x y → x = y) :
    xs = ys := by
  induction h with
  | nil => rfl
  | cons hxy _ ih =>
      rw [hr _ _ (.head _) hxy, ih fun x y hy => hr x y (.tail _ hy)]

mutual

theorem Value.Within.eq_of_matches (hle : Matching.on frames identities ≤ W)
    (hframes : Relator.BiUnique W.frames) (hids : Relator.BiUnique W.identities)
    {v w : Val} (h : (Code.likeness .same).Values W v w) (hw : w.Within frames identities) :
    v = w := by
  cases h with
  | atom a => rfl
  | list hid hitems =>
      rw [hids.1 hid (hle.identities ⟨rfl, hw.1⟩),
        Value.AllWithin.eq_of_matches hle hframes hids hitems hw.2]
  | primitive p => rfl
  | @procedure i j ps qs body body' env env' hid halike =>
      cases halike with
      | intro hρ hscopes hbody =>
          rw [show _ = Eq from hρ] at hbody hscopes
          have hps : ps = qs := forall₂_eq_self hscopes.parameters fun _ _ _ hmn => hmn
          have henv : env.chain = env'.chain := forall₂_eq_self hscopes.frames fun f g hg hfg =>
            hframes.1 hfg (hle.frames ⟨rfl, hw.2.1 g hg⟩)
          rw [hids.1 hid (hle.identities ⟨rfl, hw.1⟩),
            hps, Env.eq_of_chain_eq henv,
            Code.Within.eq_of_alike hle hframes hids hbody hw.2.2]
  | undefined => rfl
termination_by structural v

theorem Value.AllWithin.eq_of_matches (hle : Matching.on frames identities ≤ W)
    (hframes : Relator.BiUnique W.frames) (hids : Relator.BiUnique W.identities)
    {vs ws : List Val} (h : List.Forall₂ ((Code.likeness .same).Values W) vs ws)
    (hws : Value.AllWithin frames identities ws) :
    vs = ws := by
  cases h with
  | nil => rfl
  | cons hv hvs =>
      rw [Value.Within.eq_of_matches hle hframes hids hv hws.1,
        Value.AllWithin.eq_of_matches hle hframes hids hvs hws.2]
termination_by structural vs

theorem Code.Within.eq_of_alike (hle : Matching.on frames identities ≤ W)
    (hframes : Relator.BiUnique W.frames) (hids : Relator.BiUnique W.identities)
    {c d : Code} (h : Code.Alike .same W Eq c d) (hd : d.Within frames identities) :
    c = d := by
  cases h with
  | literal hv => rw [Value.Within.eq_of_matches hle hframes hids hv hd]
  | reference hmn => rw [hmn]
  | branch ht hc ha =>
      rw [Code.Within.eq_of_alike hle hframes hids ht hd.1,
        Code.Within.eq_of_alike hle hframes hids hc hd.2.1,
        Code.Within.eq_of_alike hle hframes hids ha hd.2.2]
  | andThen hfirst hsecond =>
      rw [Code.Within.eq_of_alike hle hframes hids hfirst hd.1,
        Code.Within.eq_of_alike hle hframes hids hsecond hd.2]
  | application hf hxs =>
      rw [Code.Within.eq_of_alike hle hframes hids hf hd.1,
        Code.AllWithin.eq_of_alikeEach hle hframes hids hxs hd.2]
  | define hmn hv => rw [hmn, Code.Within.eq_of_alike hle hframes hids hv hd]
  | assign hmn hv => rw [hmn, Code.Within.eq_of_alike hle hframes hids hv hd]
  | lambda hps hbody =>
      rw [forall₂_eq_self hps fun _ _ _ hmn => hmn,
        Code.Within.eq_of_alike hle hframes hids hbody hd]
termination_by structural c

theorem Code.AllWithin.eq_of_alikeEach (hle : Matching.on frames identities ≤ W)
    (hframes : Relator.BiUnique W.frames) (hids : Relator.BiUnique W.identities)
    {cs ds : List Code} (h : Code.AlikeEach .same W Eq cs ds)
    (hds : Code.AllWithin frames identities ds) :
    cs = ds := by
  cases h with
  | nil => rfl
  | cons hc hcs =>
      rw [Code.Within.eq_of_alike hle hframes hids hc hds.1,
        Code.AllWithin.eq_of_alikeEach hle hframes hids hcs hds.2]
termination_by structural cs

end
end

end MiniLisp
