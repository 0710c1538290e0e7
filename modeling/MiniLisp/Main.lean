import MiniLisp.CommandLine

/-!
# The program

Connects the command line to the world: arguments, files and the standard streams.  Everything
that is decided is decided in `MiniLisp.CommandLine` and `MiniLisp.Repl`.
-/

namespace MiniLisp
namespace Main

open CommandLine (FileProblem Request)

def problemOf : IO.Error → FileProblem
  | .noFileOrDirectory .. => .missing
  | .noSuchThing .. => .missing
  | .permissionDenied .. => .denied
  | .inappropriateType .. => .isDirectory
  | other => .other other.toString

def readFile (name : String) : IO (Except FileProblem String) := do
  try
    let bytes ← IO.FS.readBinFile name
    match String.fromUTF8? bytes with
    | some text => pure (.ok text)
    | none => pure (.error .notText)
  catch problem =>
    pure (.error (problemOf problem))

def write (outputs : List Output) : IO Unit := do
  let out ← IO.getStdout
  let err ← IO.getStderr
  for output in outputs do
    match output with
    | .out text => out.putStr text
    | .err text => err.putStr text
  out.flush

def tooDeep : IO UInt32 := do
  write [.err "The program nests too deep\n"]
  pure 1

/-- Reads, evaluates and prints line by line until the input ends or a line asks to leave. -/
partial def interactFrom (top : Toplevel) (state : Repl.State) : IO UInt32 := do
  write (LineEditor.ask (Repl.prompt state.pending))
  let line ← (← IO.getStdin).getLine
  match LineEditor.lines line.toList with
  | [] => pure 0
  | line :: _ =>
      match Repl.feed defaultDepth top state line with
      | none => tooDeep
      | some (outputs, next) => do
          write outputs
          match next with
          | none => pure 0
          | some state => interactFrom top state

def interact : IO UInt32 := do
  match CommandLine.start defaultDepth with
  | none => tooDeep
  | some (.error fault, _) => do
      write [.err (fault.report ++ "\n")]
      pure 1
  | some (.ok top, store) => do
      write [.out Repl.banner]
      interactFrom top { store }

end Main
end MiniLisp

open MiniLisp in
def main (arguments : List String) : IO UInt32 := do
  match CommandLine.Request.ofArguments arguments with
  | .interact => Main.interact
  | request => do
      let contents ←
        match request with
        | .runFile name => Main.readFile name
        | _ => pure (.error .missing)
      match CommandLine.perform defaultDepth arguments (fun _ => contents) "" with
      | none => Main.tooDeep
      | some result => do
          Main.write result.outputs
          pure (UInt32.ofNat result.status)
