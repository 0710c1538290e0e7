import MiniLisp.Proofs.Correspondence.Stores

/-!
# What happens to a store

Everything that a run does to a store is one step after another: a name is defined in some frame, a
name that a frame binds is assigned, a frame is added, identities are given out, or a line is
printed.  Which names may be defined in which frames is left open.

## Main statements

* `Store.Steps.names`: a frame keeps the names that it binds, in their order, and gains only names
  that may be defined in it.
* `Store.Steps.isSome_lookup?`: a name that an environment binds stays bound in it.
-/

namespace MiniLisp

namespace Frame

variable {β : Type}

theorem names_bind (F : Frame β) (name : Symbol) (v : Value β) :
    (F.bind name v).names = if name ∈ F.names then F.names else F.names ++ [name] :=
  Assoc.keys_put F.bindings name v

theorem isSome_find?_iff {F : Frame β} {name : Symbol} :
    (F.find? name).isSome ↔ name ∈ F.names :=
  Assoc.isSome_find?_iff F.bindings name

end Frame

namespace Store

variable {β : Type}

theorem holder?_spec {s : Store β} {env : Env} {name : Symbol} {f : FrameId}
    (h : s.holder? env name = some f) :
    f ∈ env.chain ∧ (s.find? f name).isSome :=
  ⟨List.mem_of_find?_eq_some h, List.find?_some (p := fun id => (s.find? id name).isSome) h⟩

/-- One thing that happens to a store, where `may` says which names may be defined in which
frames. -/
inductive Step (may : FrameId → Symbol → Prop) : Store β → Store β → Prop where
  | define {s f name v} :
      may f name →
      Step may s (s.bind f name v)
  | assign {s env f name v} :
      s.holder? env name = some f →
      Step may s (s.bind f name v)
  | push {s} (F : Frame β) : Step may s (s.push F).2
  | fresh {s n} :
      s.nextIdentity ≤ n →
      Step may s { s with nextIdentity := n }
  | print {s} (line : String) : Step may s { s with output := s.output.push line }

abbrev Steps (may : FrameId → Symbol → Prop) : Store β → Store β → Prop :=
  Relation.ReflTransGen (Step may)

variable {may may' : FrameId → Symbol → Prop} {s t : Store β}

theorem Step.mono (hmay : ∀ f x, may f x → may' f x)
    (h : s.Step may t) :
    s.Step may' t := by
  cases h with
  | define hname => exact .define (hmay _ _ hname)
  | assign hholder => exact .assign hholder
  | push F => exact .push F
  | fresh hle => exact .fresh hle
  | print line => exact .print line

theorem Steps.mono (hmay : ∀ f x, may f x → may' f x)
    (h : s.Steps may t) :
    s.Steps may' t :=
  Relation.ReflTransGen.mono (fun _ _ => Step.mono hmay) _ _ h

/-!
# Frames stay
-/

theorem Step.size_le (h : s.Step may t) : s.frames.size ≤ t.frames.size := by
  cases h with
  | define => exact Nat.le_of_eq (s.size_bind _ _ _).symm
  | assign => exact Nat.le_of_eq (s.size_bind _ _ _).symm
  | push F =>
      rw [size_push]
      exact Nat.le_succ _
  | fresh => exact Nat.le_refl _
  | print => exact Nat.le_refl _

theorem Steps.size_le (h : s.Steps may t) : s.frames.size ≤ t.frames.size := by
  induction h with
  | refl => exact Nat.le_refl _
  | tail _ hstep ih => exact ih.trans hstep.size_le

/-!
# Names stay
-/

theorem names_bind {f : FrameId} (hf : f < s.frames.size) (name : Symbol) (v : Value β)
    (other : FrameId) :
    ((s.bind f name v).frame other).names =
      if f = other ∧ name ∉ (s.frame other).names then (s.frame other).names ++ [name]
      else (s.frame other).names := by
  rw [frame_bind s hf]
  by_cases hother : f = other
  · rw [if_pos hother, Frame.names_bind]
    by_cases hname : name ∈ (s.frame other).names
    · rw [if_pos hname, if_neg fun h => h.2 hname]
    · rw [if_neg hname, if_pos ⟨hother, hname⟩]
  · rw [if_neg hother, if_neg fun h => hother h.1]

theorem bind_of_size_le {f : FrameId} (hf : s.frames.size ≤ f) (name : Symbol) (v : Value β) :
    s.bind f name v = s := by
  have hframes : s.frames.modify f (fun F => F.bind name v) = s.frames := by
    apply Array.ext
    · exact Array.size_modify
    · intro i _ hi
      rw [Array.getElem_modify, if_neg]
      exact (Nat.lt_of_lt_of_le hi hf).ne'
  unfold bind
  rw [hframes]

/-- A frame gains a name only by a definition of the name in it. -/
theorem Step.names (h : s.Step may t) {f : FrameId} (hf : f < s.frames.size) :
    ∃ added, (t.frame f).names = (s.frame f).names ++ added ∧ ∀ x ∈ added, may f x := by
  have hsame : t.frame f = s.frame f →
      ∃ added, (t.frame f).names = (s.frame f).names ++ added ∧ ∀ x ∈ added, may f x := by
    intro h
    exact ⟨[], by rw [h, List.append_nil], nofun⟩
  cases h with
  | @define g name v hmay =>
      by_cases hg : g < s.frames.size
      · rw [names_bind hg]
        split
        · rename_i hnew
          refine ⟨[name], rfl, ?_⟩
          intro x hx
          rw [List.mem_singleton] at hx
          rw [hx, ← hnew.1]
          exact hmay
        · exact ⟨[], (List.append_nil _).symm, nofun⟩
      · apply hsame
        rw [bind_of_size_le (Nat.le_of_not_lt hg)]
  | @assign env g name v hholder =>
      by_cases hg : g < s.frames.size
      · have hbound : name ∈ (s.frame g).names :=
          Frame.isSome_find?_iff.mp (holder?_spec hholder).2
        rw [names_bind hg, if_neg]
        · exact ⟨[], (List.append_nil _).symm, nofun⟩
        · rintro ⟨rfl, hnew⟩
          exact hnew hbound
      · apply hsame
        rw [bind_of_size_le (Nat.le_of_not_lt hg)]
  | push F =>
      apply hsame
      rw [frame_push, if_neg (Nat.ne_of_lt hf)]
  | fresh => exact hsame rfl
  | print => exact hsame rfl

/-- A frame keeps its names and gains only names that may be defined in it. -/
theorem Steps.names (h : s.Steps may t) {f : FrameId} (hf : f < s.frames.size) :
    ∃ added, (t.frame f).names = (s.frame f).names ++ added ∧ ∀ x ∈ added, may f x := by
  induction h with
  | refl => exact ⟨[], (List.append_nil _).symm, nofun⟩
  | tail hsteps hstep ih =>
      rcases ih with ⟨added, hnames, hadded⟩
      rcases hstep.names (Nat.lt_of_lt_of_le hf (Steps.size_le hsteps)) with
        ⟨added', hnames', hadded'⟩
      refine ⟨added ++ added', ?_, ?_⟩
      · rw [hnames', hnames, List.append_assoc]
      · intro x hx
        rcases List.mem_append.mp hx with hx | hx
        · exact hadded x hx
        · exact hadded' x hx

theorem Steps.names_eq (h : s.Steps may t) {f : FrameId} (hf : f < s.frames.size)
    (hmay : ∀ x, ¬ may f x) :
    (t.frame f).names = (s.frame f).names := by
  rcases h.names hf with ⟨added, hnames, hadded⟩
  cases added with
  | nil => rw [hnames, List.append_nil]
  | cons x rest => exact absurd (hadded x List.mem_cons_self) (hmay x)

theorem lt_of_isSome_find? {f : FrameId} {x : Symbol} (h : (s.find? f x).isSome) :
    f < s.frames.size := by
  by_contra hf
  have hframe : s.frame f = {} := by
    unfold frame
    rw [Array.getElem?_eq_none (Nat.le_of_not_lt hf)]
    rfl
  unfold find? at h
  rw [hframe] at h
  cases h

theorem Steps.isSome_find? (h : s.Steps may t) {f : FrameId} {x : Symbol}
    (hx : (s.find? f x).isSome) :
    (t.find? f x).isSome := by
  rcases h.names (lt_of_isSome_find? hx) with ⟨added, hnames, _⟩
  apply Frame.isSome_find?_iff.mpr
  rw [hnames]
  exact List.mem_append_left added (Frame.isSome_find?_iff.mp hx)

theorem isSome_lookup?_iff {env : Env} {x : Symbol} :
    (s.lookup? env x).isSome ↔ ∃ f ∈ env.chain, (s.find? f x).isSome := by
  unfold lookup?
  rw [List.isSome_findSome?, List.any_eq_true]

/-- A name that an environment binds stays bound in it. -/
theorem Steps.isSome_lookup? (h : s.Steps may t) {env : Env} {x : Symbol}
    (hx : (s.lookup? env x).isSome) :
    (t.lookup? env x).isSome := by
  rcases isSome_lookup?_iff.mp hx with ⟨f, hf, hbound⟩
  exact isSome_lookup?_iff.mpr ⟨f, hf, h.isSome_find? hbound⟩

end Store
end MiniLisp
