import MiniLisp.Assoc
import MiniLisp.Fault
import MiniLisp.Value

/-!
# The store

The store holds all frames that have been made, what has been printed, and the next free identity.
A frame binds names to values.  A name means, in an environment, its binding in the first frame of
the chain that has one.

## Main statements

* `find?_bind`: binding a name in a frame changes that name in that frame and nothing else.
* `frame_push`: a new frame leaves the others as they are.
-/

namespace MiniLisp

structure Frame (β : Type) where
  bindings : List (Symbol × Value β) := []

namespace Frame

variable {β : Type}

def find? (frame : Frame β) (name : Symbol) : Option (Value β) :=
  Assoc.find? name frame.bindings

def bind (frame : Frame β) (name : Symbol) (value : Value β) : Frame β :=
  ⟨Assoc.put name value frame.bindings⟩

/-- Binds parameters to arguments by position: a parameter without an argument is undefined, an
argument without a parameter is dropped, and of equal parameters the last counts. -/
def bindAll (frame : Frame β) : List Symbol → List (Value β) → Frame β
  | [], _ => frame
  | name :: names, [] => bindAll (frame.bind name .undefined) names []
  | name :: names, value :: values => bindAll (frame.bind name value) names values

def names (frame : Frame β) : List Symbol :=
  Assoc.keys frame.bindings

theorem find?_bind (frame : Frame β) (name other : Symbol) (value : Value β) :
    (frame.bind name value).find? other = if name = other then some value else frame.find? other :=
  Assoc.find?_put frame.bindings name other value

end Frame

/-- All frames, the lines printed so far, and the next free identity. -/
structure Store (β : Type) where
  frames : Array (Frame β) := #[]
  output : Array String := #[]
  nextIdentity : Identity := 0

namespace Store

variable {β : Type}

/-- The frame at a place; a place not in use has no names. -/
def frame (s : Store β) (id : FrameId) : Frame β :=
  s.frames[id]?.getD {}

def find? (s : Store β) (id : FrameId) (name : Symbol) : Option (Value β) :=
  (s.frame id).find? name

def bind (s : Store β) (id : FrameId) (name : Symbol) (value : Value β) : Store β :=
  { s with frames := s.frames.modify id fun f => f.bind name value }

def push (s : Store β) (frame : Frame β) : FrameId × Store β :=
  (s.frames.size, { s with frames := s.frames.push frame })

/-! ## Names in an environment -/

def holder? (s : Store β) (env : Env) (name : Symbol) : Option FrameId :=
  env.chain.find? fun id => (s.find? id name).isSome

def lookup? (s : Store β) (env : Env) (name : Symbol) : Option (Value β) :=
  env.chain.findSome? fun id => s.find? id name

def define (s : Store β) (env : Env) (name : Symbol) (value : Value β) : Store β :=
  s.bind env.innermost name value

def assign? (s : Store β) (env : Env) (name : Symbol) (value : Value β) : Option (Store β) :=
  match s.holder? env name with
  | some id => some (s.bind id name value)
  | none => none

def isBoundLocally (s : Store β) (env : Env) (name : Symbol) : Bool :=
  (s.find? env.innermost name).isSome

/-- The names that the innermost frame of an environment binds, in the order of their code
points. -/
def localNames (s : Store β) (env : Env) : List String :=
  ((s.frame env.innermost).names.map Symbol.name).mergeSort fun a b => decide (a ≤ b)

def newEnv (s : Store β) : Env × Store β :=
  let (id, s) := s.push {}
  (⟨id, []⟩, s)

def extend (s : Store β) (env : Env) (parameters : List Symbol) (arguments : List (Value β)) :
    Env × Store β :=
  let (id, s) := s.push (Frame.bindAll {} parameters arguments)
  (env.push id, s)

/-! ## What the operations do to the frames -/

theorem frame_push (s : Store β) (f : Frame β) (id : FrameId) :
    (s.push f).2.frame id = if id = s.frames.size then f else s.frame id := by
  simp only [push, frame, Array.getElem?_push]
  split <;> simp

theorem find?_bind (s : Store β) (id other : FrameId) (name x : Symbol) (value : Value β)
    (h : id < s.frames.size) :
    (s.bind id name value).find? other x =
      if id = other ∧ name = x then some value else s.find? other x := by
  simp only [bind, find?, frame, Array.getElem?_modify]
  by_cases hid : id = other
  · subst hid
    simp [h, Frame.find?_bind]
  · simp [hid]

end Store
end MiniLisp
