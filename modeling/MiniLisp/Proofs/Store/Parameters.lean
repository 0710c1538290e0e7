import MiniLisp.Proofs.Host.Intact
import MiniLisp.Proofs.Store.Cells

/-!
# Parameters and arguments

A call binds the parameters of a procedure to its arguments by position, in a frame of its own.  How
many arguments there are does not matter: a parameter without one is undefined, and one too many is
dropped.  Of equal parameters the last one counts, even where it is the one without an argument.

## Main statements

* `Frame.find?_bindAll_of_mem`: what a frame finds for a parameter.
* `Frame.bindAll_append`, `Frame.bindAll_append_undefined`: arguments that make no difference.
* `Host.parameters_by_position`: what a call frame binds and what it leaves alone, and that
  procedures take no notice of arguments too many, nor of undefined ones at the end.
-/

namespace MiniLisp

/-!
# Binding parameters
-/

namespace Frame

variable {β : Type} {x : Symbol} {ps : List Symbol} {vs : List (Value β)}

theorem bindAll_cons (F : Frame β) (p : Symbol) (ps : List Symbol) (vs : List (Value β)) :
    F.bindAll (p :: ps) vs = (F.bind p (vs[0]?.getD .undefined)).bindAll ps vs.tail := by
  cases vs <;> rfl

/-- A parameter has the argument at the last of its positions, or is undefined where there is none
there. -/
theorem find?_bindAll_of_mem (F : Frame β) (hx : x ∈ ps) (vs : List (Value β)) :
    ∃ i, ps[i]? = some x ∧ x ∉ ps.drop (i + 1) ∧
      (F.bindAll ps vs).find? x = some (vs[i]?.getD .undefined) := by
  induction ps generalizing F vs with
  | nil => cases hx
  | cons p ps ih =>
      rw [bindAll_cons]
      by_cases hlater : x ∈ ps
      · rcases ih (F.bind p (vs[0]?.getD .undefined)) hlater vs.tail with ⟨i, hi, hlast, hfind⟩
        rw [List.getElem?_tail] at hfind
        exact ⟨i + 1, hi, hlast, hfind⟩
      · have hp : p = x := ((List.mem_cons.mp hx).resolve_right hlater).symm
        refine ⟨0, congrArg some hp, hlater, ?_⟩
        rw [find?_bindAll_of_not_mem hlater, find?_bind, if_pos hp]

theorem isSome_find?_bindAll_iff :
    ((({} : Frame β).bindAll ps vs).find? x).isSome ↔ x ∈ ps := by
  constructor
  · intro h
    by_contra hx
    rw [find?_bindAll_of_not_mem hx] at h
    cases h
  · exact fun hx => isSome_find?_bindAll _ hx vs

/-!
# Arguments that make no difference
-/

/-- Arguments after the last parameter are dropped. -/
theorem bindAll_append (F : Frame β) (h : ps.length ≤ vs.length) (more : List (Value β)) :
    F.bindAll ps (vs ++ more) = F.bindAll ps vs := by
  induction ps generalizing F vs with
  | nil => rfl
  | cons p ps ih =>
      cases vs with
      | nil => cases h
      | cons v vs => exact ih (F.bind p v) (Nat.le_of_succ_le_succ h)

/-- Undefined arguments at the end are as good as none. -/
theorem bindAll_append_undefined (F : Frame β) (ps : List Symbol) (vs : List (Value β)) (n : Nat) :
    F.bindAll ps (vs ++ List.replicate n .undefined) = F.bindAll ps vs := by
  induction ps generalizing F vs n with
  | nil => rfl
  | cons p ps ih =>
      cases vs with
      | cons v vs => exact ih (F.bind p v) vs n
      | nil =>
          cases n with
          | zero => rfl
          | succ n => exact ih (F.bind p .undefined) [] n

end Frame

/-!
# Call frames
-/

namespace Store

variable {β : Type} {s : Store β} {env : Env}

/-- A frame for a call is added to a store, inside an environment.  It binds the parameters and
nothing else: each has the argument at the last of its positions, or is undefined.  Other names mean
what they mean in the environment, and what was there before stays as it was. -/
structure CallFrame (s : Store β) (env : Env) (ps : List Symbol) (vs : List (Value β)) (inner : Env)
    (t : Store β) : Prop where
  made : Run.extend env ps vs s = some (.ok inner, t)
  depth : inner.depth = env.depth + 1
  enclosing : inner.enclosing = env.chain
  added : inner.innermost = s.frames.size ∧ t.frames.size = s.frames.size + 1
  bound : ∀ x, t.isBoundLocally inner x = true ↔ x ∈ ps
  parameter : ∀ p ∈ ps, ∃ i, ps[i]? = some p ∧ p ∉ ps.drop (i + 1) ∧
    Run.lookup inner p t = some (.ok (vs[i]?.getD .undefined), t)
  other : ∀ x, x ∉ ps → Run.lookup inner x t = some (s.answer env x, t)
  elsewhere : ∀ old : Env, old.Within s → ∀ x, Run.lookup old x t = some (s.answer old x, t)
  frames : ∀ f < s.frames.size, t.frame f = s.frame f
  output : t.output = s.output
  nextIdentity : t.nextIdentity = s.nextIdentity

theorem callFrame_extend (henv : env.Within s) (ps : List Symbol) (vs : List (Value β)) :
    s.CallFrame env ps vs (s.extend env ps vs).1 (s.extend env ps vs).2 := by
  have hquiet := Undisturbed.extend s env ps vs
  constructor
  · rfl
  · rfl
  · rfl
  · exact ⟨rfl, size_extend s env ps vs⟩
  · intro x
    change (((s.extend env ps vs).2.frame s.frames.size).find? x).isSome = true ↔ x ∈ ps
    rw [frame_extend]
    exact Frame.isSome_find?_bindAll_iff
  · intro p hp
    rcases Frame.find?_bindAll_of_mem ({} : Frame β) hp vs with ⟨i, hi, hlast, hfind⟩
    refine ⟨i, hi, hlast, Run.lookup_of_some ?_⟩
    rw [lookup?_extend henv, hfind]
    rfl
  · intro x hx
    rw [lookup_eq_answer]
    unfold answer
    rw [lookup?_extend henv, Frame.find?_bindAll_of_not_mem hx]
    rfl
  · intro old hold x
    rw [lookup_eq_answer, answer_of_lookup?_eq (hquiet.lookup?_eq hold x)]
  · exact fun f hf => hquiet.frame_eq hf
  · rfl
  · rfl

end Store

/-!
# Calls
-/

namespace Value

variable {depth : Nat} {id : Identity} {ps : List Symbol} {body : Code} {env : Env}
  {vs ws : List Val}

theorem apply_eq_of_bindAll_eq (h : Frame.bindAll {} ps vs = Frame.bindAll {} ps ws) :
    Value.apply depth (.procedure id ps body env) vs =
      Value.apply depth (.procedure id ps body env) ws := by
  have hextend : Run.extend env ps vs = Run.extend env ps ws := by
    unfold Run.extend Store.extend
    rw [h]
  exact congrArg (· >>= body.run depth) hextend

end Value

namespace Host

/-- Parameters are bound to arguments by position.  A frame for a call, made inside any environment
of frames that are there, with any parameters, equal ones among them or not, and any arguments,
binds each parameter to the argument at its last position or to nothing.  The environments that a
host can have are of this kind.  So a procedure does the same without the arguments that it has no
parameters for, and does the same if those that are missing are given as undefined. -/
theorem parameters_by_position :
    (∀ (s : Store Code) (env : Env) (ps : List Symbol) (vs : List Val), env.Within s →
      ∃ inner t, s.CallFrame env ps vs inner t) ∧
    (∀ (h : Host) (env : Env), Relation.ReflTransGen Host.Step {} h → h.Has (.environment env) →
      env.Within h.store) ∧
    ∀ (depth : Nat) (id : Identity) (ps : List Symbol) (body : Code) (env : Env) (vs : List Val),
      (ps.length ≤ vs.length → ∀ more,
        Value.apply depth (.procedure id ps body env) (vs ++ more) =
          Value.apply depth (.procedure id ps body env) vs) ∧
      (vs.length ≤ ps.length →
        Value.apply depth (.procedure id ps body env)
            (vs ++ List.replicate (ps.length - vs.length) .undefined) =
          Value.apply depth (.procedure id ps body env) vs) := by
  refine ⟨?_, ?_, ?_⟩
  · exact fun s env ps vs henv => ⟨_, _, Store.callFrame_extend henv ps vs⟩
  · exact fun h env hreach henv => (intact_of_reaches hreach).has henv
  · intro depth id ps body env vs
    constructor
    · exact fun hlength more => Value.apply_eq_of_bindAll_eq (Frame.bindAll_append _ hlength more)
    · exact fun _ => Value.apply_eq_of_bindAll_eq (Frame.bindAll_append_undefined _ ps vs _)

/-- Three parameters, two of them equal, and two arguments: the name that stands twice is undefined
although it has an argument at its first position.  A procedure with these parameters does the same
with a third argument that is undefined, and one with a single parameter does the same without the
second argument. -/
theorem parameters_by_position_twice :
    ∃ inner t, Run.extend ⟨0, []⟩ [⟨"x"⟩, ⟨"y"⟩, ⟨"x"⟩] [.bool true, .bool false]
        ({ frames := #[⟨[(⟨"x"⟩, .bool true), (⟨"z"⟩, .bool true)]⟩] } : Store Code) =
          some (.ok inner, t) ∧
      Run.lookup inner ⟨"x"⟩ t = some (.ok .undefined, t) ∧
      Run.lookup inner ⟨"y"⟩ t = some (.ok (.bool false), t) ∧
      Run.lookup inner ⟨"z"⟩ t = some (.ok (.bool true), t) ∧
      Run.lookup ⟨0, []⟩ ⟨"x"⟩ t = some (.ok (.bool true), t) ∧
      (∀ body, Value.apply 9 (.procedure 0 [⟨"x"⟩, ⟨"y"⟩, ⟨"x"⟩] body ⟨0, []⟩)
          [.bool true, .bool false, .undefined] =
        Value.apply 9 (.procedure 0 [⟨"x"⟩, ⟨"y"⟩, ⟨"x"⟩] body ⟨0, []⟩)
          [.bool true, .bool false]) ∧
      ∀ body, Value.apply 9 (.procedure 0 [⟨"x"⟩] body ⟨0, []⟩) [.bool true, .bool false] =
        Value.apply 9 (.procedure 0 [⟨"x"⟩] body ⟨0, []⟩) [.bool true] := by
  let s : Store Code := { frames := #[⟨[(⟨"x"⟩, .bool true), (⟨"z"⟩, .bool true)]⟩] }
  have hwithin : Env.Within ⟨0, []⟩ s := by
    intro f hf
    rw [List.mem_singleton.mp hf]
    exact Nat.zero_lt_one
  rcases parameters_by_position.1 s ⟨0, []⟩ [⟨"x"⟩, ⟨"y"⟩, ⟨"x"⟩] [.bool true, .bool false]
    hwithin with ⟨inner, t, hframe⟩
  refine ⟨inner, t, hframe.made, ?_, ?_, ?_, ?_, ?_, ?_⟩
  · rcases hframe.parameter ⟨"x"⟩ (.head _) with ⟨i, hi, hlast, hlookup⟩
    rcases i with _ | _ | _ | i
    · exact absurd (.tail _ (.head _)) hlast
    · exact absurd hi (by decide)
    · exact hlookup
    · cases hi
  · rcases hframe.parameter ⟨"y"⟩ (.tail _ (.head _)) with ⟨i, hi, _, hlookup⟩
    rcases i with _ | _ | _ | i
    · exact absurd hi (by decide)
    · exact hlookup
    · exact absurd hi (by decide)
    · cases hi
  · exact hframe.other ⟨"z"⟩ (by decide)
  · exact hframe.elsewhere ⟨0, []⟩ hwithin ⟨"x"⟩
  · exact fun body => (parameters_by_position.2.2 9 0 [⟨"x"⟩, ⟨"y"⟩, ⟨"x"⟩] body ⟨0, []⟩
      [.bool true, .bool false]).2 (by decide)
  · exact fun body => (parameters_by_position.2.2 9 0 [⟨"x"⟩] body ⟨0, []⟩
      [.bool true]).1 (by decide) [.bool false]

end Host
end MiniLisp
