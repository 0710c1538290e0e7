import MiniLisp.Text.Blank
import MiniLisp.Toplevel

/-!
# The loop that reads, evaluates and prints

Lines are collected until they hold no unfinished list, and are then evaluated together in one top
level.  The loop ends with its input, or at a line that asks for it while nothing is pending.  Lines
come from a line editor, which is told the prompt; what it prints then is its own affair, and so are
the history of lines, interrupts and faults of its input.
-/

namespace MiniLisp

inductive Output where
  | out (text : String)
  | err (text : String)
  deriving DecidableEq, Repr

namespace Output

def standard (outputs : List Output) : String :=
  String.join (outputs.map fun | .out text => text | .err _ => "")

def diagnostic (outputs : List Output) : String :=
  String.join (outputs.map fun | .out _ => "" | .err text => text)

end Output

namespace Repl

def banner : String :=
  "schemer REPL\nType expressions to evaluate, or :quit to exit\n\n"

structure State where
  pending : List Char := []
  store : Store Code

def prompt (pending : List Char) : String :=
  if pending.isEmpty then "> " else "... "

/-- Whether a line, blanks at its ends aside, asks to leave. -/
def asksToLeave (line : List Char) : Bool :=
  [":quit", ":exit", "(exit)"].any fun command => command.toList = line

inductive Intent where
  | skip
  | leave
  /-- Go on reading, with this text pending. -/
  | wait (pending : List Char)
  | evaluate (chunk : List Char)
  deriving DecidableEq, Repr

def intent (pending line : List Char) : Intent :=
  let trimmed := Text.trim line
  if pending.isEmpty && trimmed.isEmpty then
    .skip
  else if pending.isEmpty && asksToLeave trimmed then
    .leave
  else
    let chunk := pending ++ line ++ ['\n']
    if Reading.isUnfinished chunk then .wait chunk else .evaluate chunk

def evaluate (depth : Nat) (top : Toplevel) (chunk : List Char) (store : Store Code) :
    Option (List Output × Store Code) :=
  match (top.evalText depth chunk).run { store with output := #[] } with
  | none => none
  | some (result, after) =>
      let printed := after.output.toList.map fun line => Output.out (line ++ "\n")
      let answer :=
        match result with
        | .ok v => Output.out (v.shown ++ "\n")
        | .error fault => Output.err ("Error: " ++ fault.report ++ "\n")
      some (printed ++ [answer], after)

/-- What one line prints, and the state after it; no state after the last line. -/
def feed (depth : Nat) (top : Toplevel) (state : State) (line : List Char) :
    Option (List Output × Option State) :=
  match intent state.pending line with
  | .skip => some ([], some state)
  | .leave => some ([], none)
  | .wait pending => some ([], some { state with pending })
  | .evaluate chunk =>
      (evaluate depth top chunk state.store).map fun (outputs, store) => (outputs, some { store })

/-- What the loop prints from a state on for the lines to come; `ask` is what the line editor prints
when it is asked for a line. -/
def loop (depth : Nat) (top : Toplevel) (ask : String → List Output) (state : State) :
    List (List Char) → Option (List Output)
  | [] => some (ask (prompt state.pending))
  | line :: rest => do
      let (outputs, next) ← feed depth top state line
      let more ←
        match next with
        | none => some []
        | some next => loop depth top ask next rest
      some (ask (prompt state.pending) ++ (outputs ++ more))

end Repl
end MiniLisp
