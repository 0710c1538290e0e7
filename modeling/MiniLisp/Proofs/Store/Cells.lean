import MiniLisp.Proofs.Host

/-!
# Which binding a name means

A name means, in an environment, its binding in the first frame outward that has one: its cell.
Looking a name up, assigning to it and defining it walk the chain each in their own way, and still
agree on the cell.

## Main statements

* `holder?_eq_some_iff`: the walk of an assignment ends at the cell.
* `lookup?_eq_some_iff`: the walk of a lookup ends there as well.
* `lookup?_bind_of_meets`, `lookup?_bind_of_not_meets`: after a binding, a name has the new value in
  the environments that meet the binding first, and elsewhere the value that it had.
* `Host.cells_agree`: what assigning and defining do, in every store, and so in those that a host
  can reach.
-/

namespace MiniLisp
namespace Store

variable {β : Type} {s : Store β} {env : Env} {name x : Symbol} {f g : FrameId}
  {chain : List FrameId} {v w : Value β}

/-- Along a chain of frames one meets a frame before any other that binds the name. -/
inductive Meets (s : Store β) (name : Symbol) (f : FrameId) : List FrameId → Prop where
  | here (outer : List FrameId) : Meets s name f (f :: outer)
  | outward {g : FrameId} {outer : List FrameId} :
      s.find? g name = none →
      Meets s name f outer →
      Meets s name f (g :: outer)

structure Cell (s : Store β) (env : Env) (name : Symbol) (f : FrameId) : Prop where
  meets : s.Meets name f env.chain
  bound : (s.find? f name).isSome

/-!
# Walks along a chain
-/

theorem find?_chain_eq_some_iff :
    chain.find? (fun id => (s.find? id name).isSome) = some f ↔
      s.Meets name f chain ∧ (s.find? f name).isSome := by
  induction chain with
  | nil => exact ⟨nofun, fun h => nomatch h.1⟩
  | cons g outer ih =>
      rw [List.find?_cons]
      cases hg : s.find? g name with
      | some w =>
          constructor
          · rintro ⟨⟩
            exact ⟨.here outer, by rw [hg]; rfl⟩
          · rintro ⟨hmeets, _⟩
            cases hmeets with
            | here => rfl
            | outward hnone => cases hg.symm.trans hnone
      | none =>
          refine Iff.trans ih ⟨fun h => ⟨.outward hg h.1, h.2⟩, ?_⟩
          rintro ⟨hmeets, hbound⟩
          cases hmeets with
          | here =>
              rw [hg] at hbound
              cases hbound
          | outward _ hmeets => exact ⟨hmeets, hbound⟩

/-- The walk of an assignment ends at the cell. -/
theorem holder?_eq_some_iff : s.holder? env name = some f ↔ s.Cell env name f :=
  find?_chain_eq_some_iff.trans ⟨fun h => ⟨h.1, h.2⟩, fun h => ⟨h.meets, h.bound⟩⟩

theorem Cell.unique (hf : s.Cell env name f) (hg : s.Cell env name g) : g = f := by
  have hholder := holder?_eq_some_iff.mpr hf
  rw [holder?_eq_some_iff.mpr hg] at hholder
  exact Option.some.inj hholder

theorem holder?_eq_none_iff : s.holder? env name = none ↔ ∀ f, ¬ s.Cell env name f := by
  rw [Option.eq_none_iff_forall_ne_some]
  exact forall_congr' fun f => not_congr holder?_eq_some_iff

theorem Cell.lookup? (h : s.Cell env name f) : s.lookup? env name = s.find? f name := by
  rw [lookup?_eq_bind_holder?, holder?_eq_some_iff.mpr h]
  rfl

theorem lookup?_eq_none_iff : s.lookup? env name = none ↔ ∀ f, ¬ s.Cell env name f := by
  rw [← holder?_eq_none_iff, lookup?_eq_bind_holder?]
  cases hholder : s.holder? env name with
  | none => exact ⟨fun _ => rfl, fun _ => rfl⟩
  | some f =>
      refine ⟨fun h => ?_, nofun⟩
      have hbound := (holder?_spec hholder).2
      rw [show s.find? f name = none from h] at hbound
      cases hbound

/-- The walk of a lookup ends at the cell as well. -/
theorem lookup?_eq_some_iff :
    s.lookup? env name = some v ↔ ∃ f, s.Cell env name f ∧ s.find? f name = some v := by
  constructor
  · intro h
    cases hholder : s.holder? env name with
    | none =>
        rw [lookup?_eq_bind_holder?, hholder] at h
        cases h
    | some f =>
        have hcell := holder?_eq_some_iff.mp hholder
        exact ⟨f, hcell, hcell.lookup?.symm.trans h⟩
  · rintro ⟨f, hcell, hv⟩
    exact hcell.lookup?.trans hv

/-!
# After a binding
-/

theorem findSome?_bind_of_meets (hf : f < s.frames.size) (h : s.Meets name f chain) :
    chain.findSome? (fun id => (s.bind f name v).find? id name) = some v := by
  induction h with
  | here outer =>
      rw [List.findSome?_cons, find?_bind s f f name name v hf, if_pos ⟨rfl, rfl⟩]
  | @outward g outer hnone _ ih =>
      rw [List.findSome?_cons, find?_bind s f g name name v hf, hnone]
      by_cases hg : f = g
      · rw [if_pos ⟨hg, rfl⟩]
      · rw [if_neg fun h => hg h.1]
        exact ih

theorem findSome?_bind_of_not_meets (hf : f < s.frames.size)
    (h : ¬ (x = name ∧ s.Meets name f chain)) :
    chain.findSome? (fun id => (s.bind f name v).find? id x) =
      chain.findSome? fun id => s.find? id x := by
  induction chain with
  | nil => rfl
  | cons g outer ih =>
      have hg : ¬ (f = g ∧ name = x) := by
        rintro ⟨rfl, rfl⟩
        exact h ⟨rfl, .here outer⟩
      rw [List.findSome?_cons, List.findSome?_cons, find?_bind s f g name x v hf, if_neg hg]
      cases hx : s.find? g x with
      | some w => rfl
      | none =>
          apply ih
          rintro ⟨rfl, hmeets⟩
          exact h ⟨rfl, .outward hx hmeets⟩

/-- An environment that meets the binding before any other of the name finds the new value. -/
theorem lookup?_bind_of_meets (hf : f < s.frames.size) (h : s.Meets name f env.chain) :
    (s.bind f name v).lookup? env name = some v :=
  findSome?_bind_of_meets hf h

/-- Other names, and other environments, find what they found before. -/
theorem lookup?_bind_of_not_meets (hf : f < s.frames.size)
    (h : ¬ (x = name ∧ s.Meets name f env.chain)) :
    (s.bind f name v).lookup? env x = s.lookup? env x :=
  findSome?_bind_of_not_meets hf h

theorem names_bind_of_bound (h : (s.find? f name).isSome) (g : FrameId) :
    ((s.bind f name v).frame g).names = (s.frame g).names := by
  rw [names_bind (lt_of_isSome_find? h), if_neg]
  rintro ⟨rfl, hnew⟩
  exact hnew (Frame.isSome_find?_iff.mp h)

/-!
# Answers
-/

def answer (s : Store β) (env : Env) (name : Symbol) : Except Fault (Value β) :=
  match s.lookup? env name with
  | some v => .ok v
  | none => .error { cause := .unbound name }

theorem lookup_eq_answer (s : Store β) (env : Env) (name : Symbol) :
    Run.lookup env name s = some (s.answer env name, s) := by
  cases h : s.lookup? env name with
  | some v =>
      rw [Run.lookup_of_some h]
      unfold answer
      rw [h]
  | none =>
      rw [Run.lookup_of_none h]
      unfold answer
      rw [h]

theorem answer_of_lookup?_eq {t : Store β} (h : t.lookup? env name = s.lookup? env name) :
    t.answer env name = s.answer env name := by
  unfold answer
  rw [h]

/-!
# Assigning and defining
-/

/-- A name that an environment does not bind can be neither looked up nor assigned to; both have the
same fault, and the store stays as it is. -/
structure Unbound (s : Store Code) (env : Env) (name : Symbol) (v : Val) : Prop where
  cell : ∀ f, ¬ s.Cell env name f
  lookup : Run.lookup env name s = some (.error { cause := .unbound name }, s)
  assign : Run.assign env name v s = some (.error { cause := .unbound name }, s)

structure Binds (s : Store Code) (f : FrameId) (name : Symbol) (v : Val) (t : Store Code) :
    Prop where
  find? : ∀ g x, t.find? g x = if f = g ∧ name = x then some v else s.find? g x
  size : t.frames.size = s.frames.size
  output : t.output = s.output
  nextIdentity : t.nextIdentity = s.nextIdentity

/-- Assigning to a name that has a cell: it can be looked up there and assigned to there, and no
frame gains or loses a name.  Whatever has the same cell, in any environment, finds the new value,
and all else is answered as before. -/
structure Assigns (s : Store Code) (env : Env) (name : Symbol) (v : Val) (f : FrameId)
    (t : Store Code) : Prop where
  cell : s.Cell env name f
  unique : ∀ g, s.Cell env name g → g = f
  lookup : ∃ w, s.find? f name = some w ∧ Run.lookup env name s = some (.ok w, s)
  assign : Run.assign env name v s = some (.ok (), t)
  binds : s.Binds f name v t
  names : ∀ g, (t.frame g).names = (s.frame g).names
  same_cell : ∀ other, s.Cell other name f → Run.lookup other name t = some (.ok v, t)
  other_cell : ∀ other x, ¬ (x = name ∧ s.Cell other x f) →
    Run.lookup other x t = some (s.answer other x, t)

/-- Defining a name binds it in the innermost frame and does nothing else.  The environments that
meet this frame before any other that binds the name find the new value, and all else is answered
as before. -/
structure Defines (s : Store Code) (env : Env) (name : Symbol) (v : Val) (t : Store Code) :
    Prop where
  define : Run.define env name v s = some (.ok (), t)
  binds : s.Binds env.innermost name v t
  met : ∀ other, s.Meets name env.innermost other.chain →
    Run.lookup other name t = some (.ok v, t)
  not_met : ∀ other x, ¬ (x = name ∧ s.Meets name env.innermost other.chain) →
    Run.lookup other x t = some (s.answer other x, t)

section Code

variable {s : Store Code} {v : Val}

theorem unbound_of_holder?_eq_none (h : s.holder? env name = none) (v : Val) :
    s.Unbound env name v where
  cell := holder?_eq_none_iff.mp h
  lookup := Run.lookup_of_none (lookup?_eq_none_iff.mpr (holder?_eq_none_iff.mp h))
  assign := Run.assign_of_none h v

theorem binds_bind (hf : f < s.frames.size) (name : Symbol) (v : Val) :
    s.Binds f name v (s.bind f name v) where
  find? := fun g x => find?_bind s f g name x v hf
  size := s.size_bind f name v
  output := rfl
  nextIdentity := rfl

theorem lookup_bind_of_meets (hf : f < s.frames.size) (h : s.Meets name f env.chain) :
    Run.lookup env name (s.bind f name v) = some (.ok v, s.bind f name v) :=
  Run.lookup_of_some (lookup?_bind_of_meets hf h)

theorem lookup_bind_of_not_meets (hf : f < s.frames.size)
    (h : ¬ (x = name ∧ s.Meets name f env.chain)) :
    Run.lookup env x (s.bind f name v) = some (s.answer env x, s.bind f name v) := by
  rw [lookup_eq_answer, answer_of_lookup?_eq (lookup?_bind_of_not_meets hf h)]

theorem Cell.assigns (h : s.Cell env name f) (v : Val) :
    s.Assigns env name v f (s.bind f name v) := by
  have hf := lt_of_isSome_find? h.bound
  constructor
  · exact h
  · exact fun _ hg => h.unique hg
  · rcases Option.isSome_iff_exists.mp h.bound with ⟨w, hw⟩
    exact ⟨w, hw, Run.lookup_of_some (lookup?_eq_some_iff.mpr ⟨f, h, hw⟩)⟩
  · exact Run.assign_of_holder (holder?_eq_some_iff.mpr h) v
  · exact binds_bind hf name v
  · exact names_bind_of_bound h.bound
  · exact fun _ hother => lookup_bind_of_meets hf hother.meets
  · intro other x hother
    apply lookup_bind_of_not_meets hf
    rintro ⟨rfl, hmeets⟩
    exact hother ⟨rfl, hmeets, h.bound⟩

theorem defines_define (h : env.innermost < s.frames.size) (name : Symbol) (v : Val) :
    s.Defines env name v (s.define env name v) where
  define := rfl
  binds := binds_bind h name v
  met := fun _ hother => lookup_bind_of_meets h hother
  not_met := fun _ _ hother => lookup_bind_of_not_meets h hother

theorem unbound_or_assigns (s : Store Code) (env : Env) (name : Symbol) (v : Val) :
    s.Unbound env name v ∨ ∃ f t, s.Assigns env name v f t := by
  cases hholder : s.holder? env name with
  | none => exact Or.inl (unbound_of_holder?_eq_none hholder v)
  | some f => exact Or.inr ⟨f, _, (holder?_eq_some_iff.mp hholder).assigns v⟩

end Code
end Store

namespace Host

theorem innermost_lt {h : Host} (hreach : Relation.ReflTransGen Host.Step {} h) {env : Env}
    (henv : h.Has (.environment env)) : env.innermost < h.store.frames.size := by
  have hempty : ({} : Host).WellFormed [] := ⟨.empty, nofun⟩
  rcases wellFormed_of_reaches hreach hempty with ⟨parents, hwell⟩
  rw [← hwell.store.length_eq]
  exact (hwell.has henv).lt_length _ (.head _)

/-- In every store and every environment of frames that are there, a name can be assigned to exactly
if it can be looked up, and then both mean the same cell; a name can always be defined.  Which
answers change, in this environment and in all others, depends on their cells.  The environments
that a host can have in the stores that it can reach are of this kind. -/
theorem cells_agree :
    (∀ (s : Store Code) (env : Env) (name : Symbol) (v : Val), env.innermost < s.frames.size →
      (s.Unbound env name v ∨ ∃ f t, s.Assigns env name v f t) ∧ ∃ t, s.Defines env name v t) ∧
    ∀ (h : Host) (env : Env), Relation.ReflTransGen Host.Step {} h → h.Has (.environment env) →
      env.innermost < h.store.frames.size := by
  refine ⟨fun s env name v hinnermost => ?_, fun h env hreach henv => innermost_lt hreach henv⟩
  exact ⟨s.unbound_or_assigns env name v, _, Store.defines_define hinnermost name v⟩

theorem cells_agree_outer :
    ∃ h : Host, Relation.ReflTransGen Host.Step {} h ∧ h.Has (.environment ⟨1, [0]⟩) ∧
      (∃ t, Run.assign ⟨1, [0]⟩ ⟨"x"⟩ (.bool false) h.store = some (.ok (), t) ∧
        Run.lookup ⟨0, []⟩ ⟨"x"⟩ t = some (.ok (.bool false), t)) ∧
      ∃ t, Run.define ⟨1, [0]⟩ ⟨"x"⟩ (.bool false) h.store = some (.ok (), t) ∧
        Run.lookup ⟨0, []⟩ ⟨"x"⟩ t = some (.ok (.bool true), t) ∧
        Run.lookup ⟨1, [0]⟩ ⟨"x"⟩ t = some (.ok (.bool false), t) := by
  let x : Symbol := ⟨"x"⟩
  let store : Store Code := { frames := #[⟨[(x, .bool true)]⟩, {}] }
  have hmade : Host.Step {} ⟨{ frames := #[{}] }, [.environment ⟨0, []⟩]⟩ :=
    .got 0 .newEnv nofun rfl
  have hdefined : Host.Step ⟨{ frames := #[{}] }, [.environment ⟨0, []⟩]⟩
      ⟨{ frames := #[⟨[(x, .bool true)]⟩] }, [.environment ⟨0, []⟩]⟩ := by
    refine .got 0 (.define ⟨0, []⟩ x (.bool true)) ?_ rfl
    intro thing hthing
    cases hthing with
    | head => exact .held (.head _)
    | tail _ hthing =>
        rw [List.mem_singleton.mp hthing]
        exact .atom (.bool true)
  have hextended : Host.Step ⟨{ frames := #[⟨[(x, .bool true)]⟩] }, [.environment ⟨0, []⟩]⟩
      ⟨store, [.environment ⟨1, [0]⟩, .environment ⟨0, []⟩]⟩ := by
    refine .got 0 (.extend ⟨0, []⟩ [] []) ?_ rfl
    intro thing hthing
    rw [List.mem_singleton.mp hthing]
    exact .held (.head _)
  have hreach := ((Relation.ReflTransGen.single hmade).tail hdefined).tail hextended
  have hcell : store.Cell ⟨1, [0]⟩ x 0 := ⟨.outward rfl (.here []), rfl⟩
  refine ⟨_, hreach, .held (.head _), ?_⟩
  have hinnermost := cells_agree.2 _ ⟨1, [0]⟩ hreach (.held (.head _))
  rcases cells_agree.1 store ⟨1, [0]⟩ x (.bool false) hinnermost with
    ⟨hunbound | ⟨f, t, hassigns⟩, u, hdefines⟩
  · exact absurd hcell (hunbound.cell 0)
  · cases hassigns.unique 0 hcell
    refine ⟨⟨t, hassigns.assign, hassigns.same_cell ⟨0, []⟩ ⟨.here [], rfl⟩⟩, ?_⟩
    refine ⟨u, hdefines.define, hdefines.not_met ⟨0, []⟩ x ?_, hdefines.met _ (.here [0])⟩
    rintro ⟨-, hmeets⟩
    cases hmeets with
    | outward _ hmeets => cases hmeets

end Host
end MiniLisp
