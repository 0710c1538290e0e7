import MiniLisp.Proofs.Store.Steps

/-!
# What frames bind

A property that all bound values have stays one, whatever is done to a store, if the values that are
bound by it have the property too.

## Main statements

* `Store.AllBound.bind`, `Store.AllBound.extend`: what the operations need.
* `Store.AllBound.lookup?`: a value that is looked up has the property.
-/

namespace MiniLisp

variable {β : Type} {P : Value β → Prop}

theorem Frame.of_find?_bindAll {F : Frame β} {ps : List Symbol} {vs : List (Value β)} {x : Symbol}
    {v : Value β} (h : (F.bindAll ps vs).find? x = some v) :
    F.find? x = some v ∨ v ∈ vs ∨ v = .undefined := by
  induction ps generalizing F vs with
  | nil => exact Or.inl h
  | cons p ps ih =>
      cases vs with
      | nil =>
          rcases ih h with h | h | h
          · rw [Frame.find?_bind] at h
            split at h
            · exact Or.inr (Or.inr (Option.some.inj h).symm)
            · exact Or.inl h
          · cases h
          · exact Or.inr (Or.inr h)
      | cons w vs =>
          rcases ih h with h | h | h
          · rw [Frame.find?_bind] at h
            split at h
            · cases h
              exact Or.inr (Or.inl (.head _))
            · exact Or.inl h
          · exact Or.inr (Or.inl (.tail _ h))
          · exact Or.inr (Or.inr h)

namespace Store

def AllBound (P : Value β → Prop) (s : Store β) : Prop :=
  ∀ f x v, s.find? f x = some v → P v

namespace AllBound

variable {s t : Store β}

theorem empty : ({} : Store β).AllBound P := by
  intro f x v hv
  cases hv

theorem mono {P' : Value β → Prop} (hs : s.AllBound P) (h : ∀ v, P v → P' v) : s.AllBound P' :=
  fun f x v hv => h v (hs f x v hv)

theorem of_frames_eq (hs : s.AllBound P) (h : t.frames = s.frames) : t.AllBound P := by
  intro f x v hv
  unfold find? frame at hv
  rw [h] at hv
  exact hs f x v hv

theorem bind (hs : s.AllBound P) {v : Value β} (hv : P v) (f : FrameId) (name : Symbol) :
    (s.bind f name v).AllBound P := by
  by_cases hf : f < s.frames.size
  · intro g x w hw
    rw [find?_bind s f g name x v hf] at hw
    split at hw
    · cases hw
      exact hv
    · exact hs g x w hw
  · rw [bind_of_size_le (Nat.le_of_not_lt hf)]
    exact hs

theorem push (hs : s.AllBound P) {F : Frame β} (hF : ∀ x v, F.find? x = some v → P v) :
    (s.push F).2.AllBound P := by
  intro f x v hv
  unfold find? at hv
  rw [frame_push] at hv
  split at hv
  · exact hF x v hv
  · exact hs f x v hv

theorem newEnv (hs : s.AllBound P) : s.newEnv.2.AllBound P := by
  apply hs.push
  intro x v hv
  cases hv

theorem extend (hs : s.AllBound P) {vs : List (Value β)} (hvs : ∀ v ∈ vs, P v)
    (hundefined : P .undefined) (env : Env) (ps : List Symbol) :
    (s.extend env ps vs).2.AllBound P := by
  apply hs.push
  intro x v hv
  rcases Frame.of_find?_bindAll hv with h | h | rfl
  · cases h
  · exact hvs v h
  · exact hundefined

theorem lookup? (hs : s.AllBound P) {env : Env} {name : Symbol} {v : Value β}
    (h : s.lookup? env name = some v) :
    P v := by
  rcases List.exists_of_findSome?_eq_some h with ⟨f, _, hv⟩
  exact hs f name v hv

end AllBound

end Store
end MiniLisp
