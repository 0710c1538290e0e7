import MiniLisp.Assoc
import MiniLisp.Fault
import MiniLisp.Value

/-!
# Registers and their saved contents

A register has a name and contents.  The saved contents of a name form a stack of their own, so
that registers never see what others have saved.  The stack counts what has been saved, and
remembers the greatest depth that any name has had.

## Main statement

* `savedOf_push`: saving a register changes the saved contents of its name alone.
-/

namespace MiniLisp

/-- An instruction: its text, and the label it is traced under if it has one. -/
structure Instruction where
  label : Option String := none
  text : String
  deriving DecidableEq, Repr

inductive Contents (β : Type) where
  | empty
  | value (value : Value β)
  | program (pending : List Instruction)

namespace Contents

variable {β : Type}

def same : Contents β → Contents β → Bool
  | .empty, .empty => true
  | .value a, .value b => a.same b
  | .program p, .program q => p == q
  | _, _ => false

end Contents

structure Register (β : Type) where
  name : Symbol
  contents : Contents β := .empty

/-- The saved contents of each name, the last saved first, and statistics that are never reset.
These are exact: counters of 64 bits agree with them for fewer than 2 ^ 64 operations. -/
structure SavedStack (β : Type) where
  saved : List (Symbol × List (Contents β)) := []
  pushes : Nat := 0
  maxDepth : Nat := 0

namespace SavedStack

variable {β : Type}

/-- The saved contents of a name, the last saved first. -/
def savedOf (stack : SavedStack β) (name : Symbol) : List (Contents β) :=
  (Assoc.find? name stack.saved).getD []

def depth (stack : SavedStack β) (name : Symbol) : Nat :=
  (stack.savedOf name).length

def push (stack : SavedStack β) (register : Register β) : SavedStack β :=
  let contents := register.contents :: stack.savedOf register.name
  { saved := Assoc.put register.name contents stack.saved
    pushes := stack.pushes + 1
    maxDepth := max stack.maxDepth contents.length }

/-- Gives a register back what was saved last under its name. -/
def pop (stack : SavedStack β) (register : Register β) :
    Except Fault.Cause (Register β × SavedStack β) :=
  match stack.savedOf register.name with
  | [] => .error (.emptyStack register.name)
  | contents :: rest =>
      .ok ({ register with contents },
        { stack with saved := Assoc.put register.name rest stack.saved })

def clear (stack : SavedStack β) : SavedStack β :=
  { stack with saved := [] }

theorem savedOf_push (stack : SavedStack β) (register : Register β) (name : Symbol) :
    (stack.push register).savedOf name =
      if register.name = name then register.contents :: stack.savedOf name
      else stack.savedOf name := by
  simp only [push, savedOf, Assoc.find?_put]
  split
  · rename_i h
    simp [h]
  · rfl

end SavedStack
end MiniLisp
