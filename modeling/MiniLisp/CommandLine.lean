import MiniLisp.LineEditor

/-!
# The command line

Without an argument the program is a loop that reads, evaluates and prints; with one it runs a
file or explains itself.
-/

namespace MiniLisp
namespace CommandLine

/-- A request to the program: to talk, to explain itself, to run a file, or one it refuses because
there are too many arguments. -/
inductive Request where
  | interact
  | explain
  | runFile (name : String)
  | refuse
  deriving DecidableEq, Repr

def Request.ofArguments : List String → Request
  | [] => .interact
  | [argument] =>
      if argument = "--help" ∨ argument = "-h" then .explain else .runFile argument
  | _ => .refuse

inductive FileProblem where
  | missing
  | isDirectory
  | notDirectory
  | denied
  | notText
  | other (reason : String)
  deriving DecidableEq, Repr

def FileProblem.reason : FileProblem → String
  | .missing => "No such file or directory (os error 2)"
  | .isDirectory => "Is a directory (os error 21)"
  | .notDirectory => "Not a directory (os error 20)"
  | .denied => "Permission denied (os error 13)"
  | .notText => "stream did not contain valid UTF-8"
  | .other reason => reason

def usage : String :=
  "Usage:\n" ++
  "  schemer             Start interactive REPL\n" ++
  "  schemer <file.scm>  Run a schemer file\n" ++
  "  schemer --help      Show this help message\n"

structure Result where
  status : Nat := 0
  outputs : List Output := []

def start (depth : Nat) : Option (Except Fault Toplevel × Store Code) :=
  (Toplevel.withLibrary depth).run {}

def runFile (depth : Nat) (name : String) (contents : Except FileProblem String) : Option Result :=
  match contents with
  | .error problem =>
      some ⟨1, [.err ("Failed to read file '" ++ name ++ "': " ++ problem.reason ++ "\n")]⟩
  | .ok text => do
      let run : Run Code Val := do
        let top ← Toplevel.withLibrary depth
        top.evalText depth text.toList
      let (result, store) ← run.run {}
      let printed := store.output.toList.map fun line => Output.out (line ++ "\n")
      match result with
      | .ok v => some ⟨0, printed ++ [.out (v.shown ++ "\n")]⟩
      | .error fault => some ⟨1, printed ++ [.err ("Evaluation error: " ++ fault.report ++ "\n")]⟩

def interact (depth : Nat) (lines : List (List Char)) : Option Result := do
  let (top, store) ← start depth
  match top with
  | .error fault => some ⟨1, [.err (fault.report ++ "\n")]⟩
  | .ok top => do
      let outputs ← Repl.loop depth top LineEditor.ask { store } lines
      some ⟨0, .out Repl.banner :: outputs⟩

def perform (depth : Nat) (arguments : List String) (read : String → Except FileProblem String)
    (input : String) : Option Result :=
  match Request.ofArguments arguments with
  | .interact => interact depth (LineEditor.lines input.toList)
  | .explain => some ⟨0, [.err usage]⟩
  | .runFile name => runFile depth name (read name)
  | .refuse => some ⟨1, [.err "Error: Too many arguments\n", .err usage]⟩

end CommandLine
end MiniLisp
