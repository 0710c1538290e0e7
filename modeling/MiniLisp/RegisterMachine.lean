import MiniLisp.RegisterMachine.RegisterTable

/-!
# The register machine

Named registers, made when they are first named, with a stack of saved contents each.  The
register `pc` holds the program; executing it takes the instructions one after the other, counts
them, and traces those with a label while tracing is on.  Instructions do nothing else.
-/

namespace MiniLisp

/-- A register machine.  The count is exact: a counter of 64 bits agrees with it while fewer than
2 ^ 64 instructions have been executed. -/
structure RegisterMachine (β : Type) where
  registers : RegisterTable β
  stack : SavedStack β := {}
  count : Nat := 0
  tracing : Bool := false
  trace : List String := []

namespace RegisterMachine

variable {β : Type}

def pc : Symbol :=
  ⟨"pc"⟩

def flag : Symbol :=
  ⟨"flag"⟩

def new : RegisterMachine β :=
  { registers := (RegisterTable.empty.set pc .empty).set flag .empty }

/-- A register; one that has not been made counts as empty. -/
def register (m : RegisterMachine β) (name : Symbol) : Register β :=
  m.registers.register name

def contents (m : RegisterMachine β) (name : Symbol) : Contents β :=
  (m.register name).contents

def set (m : RegisterMachine β) (name : Symbol) (contents : Contents β) : RegisterMachine β :=
  { m with registers := m.registers.set name contents }

def allocate (m : RegisterMachine β) (name : Symbol) : RegisterMachine β :=
  if (m.registers.find? name).isSome then m else m.set name .empty

def names (m : RegisterMachine β) : List Symbol :=
  m.registers.names

def save (m : RegisterMachine β) (name : Symbol) : RegisterMachine β :=
  let m := m.allocate name
  { m with stack := m.stack.push (m.register name) }

/-- Gives a register back what was saved last; on a fault the machine has made the register
and is otherwise as before. -/
def restore (m : RegisterMachine β) (name : Symbol) :
    Except Fault.Cause Unit × RegisterMachine β :=
  let m := m.allocate name
  match m.stack.pop (m.register name) with
  | .error cause => (.error cause, m)
  | .ok (register, stack) => (.ok (), { m.set name register.contents with stack })

def clearStack (m : RegisterMachine β) : RegisterMachine β :=
  { m with stack := m.stack.clear }

def install (m : RegisterMachine β) (program : List Instruction) : RegisterMachine β :=
  m.set pc (.program program)

def setTracing (m : RegisterMachine β) (on : Bool) : RegisterMachine β :=
  { m with tracing := on }

/-- The line that an instruction leaves in the trace. -/
def traceLine? (instruction : Instruction) : Option String :=
  instruction.label.map fun label => label ++ " >>> " ++ instruction.text

def perform (m : RegisterMachine β) (instruction : Instruction) : RegisterMachine β :=
  let lines := if m.tracing then (traceLine? instruction).toList else []
  { m with count := m.count + 1, trace := m.trace ++ lines }

/-- Performs the instructions in `pc` until none is left. -/
def execute (m : RegisterMachine β) : Except Fault.Cause Unit × RegisterMachine β :=
  let m := m.allocate pc
  match m.contents pc with
  | .empty => (.ok (), m)
  | .value v => (.error (.notProgram v.shown), m)
  | .program pending => (.ok (), (pending.foldl perform m).set pc (.program []))

end RegisterMachine
end MiniLisp
