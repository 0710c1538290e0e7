import MiniLisp.Code
import MiniLisp.Primitive.Application

/-!
# Running code

Code runs in an environment.  Operators come before operands and operands run from left to right.
A procedure's body runs in a new frame inside the environment that the procedure was made in.  The
depth to which runs may nest is a parameter: a run that ends does so with the same answer at any
greater depth.
-/

namespace MiniLisp

/-- Applies a value to arguments, running a procedure's body by `body`. -/
@[specialize] def Value.applyWith {β : Type} (body : β → Env → Run β (Value β)) (operator : Value β)
    (arguments : List (Value β)) : Run β (Value β) :=
  match operator with
  | .primitive operation => operation.apply arguments
  | .procedure _ parameters code env => do
      let inner ← Run.extend env parameters arguments
      body code inner
  | other => Run.fail (.notCallable other.shown)

namespace Code

/-- Runs code in an environment, nesting at most `depth` deep. -/
def run : Nat → Code → Env → Run Code Val
  | 0, _, _ => Run.tooDeep
  | depth + 1, code, env =>
      match code with
      | .literal value => pure value
      | .reference name => Run.lookup env name
      | .branch test consequent alternative => do
          let v ← run depth test env
          if v.isTrue then run depth consequent env else run depth alternative env
      | .andThen first second => do
          let _ ← run depth first env
          run depth second env
      | .application operator operands => do
          let f ← run depth operator env
          let arguments ← operands.mapM fun operand => run depth operand env
          f.applyWith (run depth) arguments
      | .define name value => do
          let v ← run depth value env
          Run.define env name v
          pure v
      | .assign name value => do
          let v ← run depth value env
          Run.assign env name v
          pure v
      | .lambda parameters body => do
          let id ← Run.fresh
          pure (.procedure id parameters body env)

end Code

def Value.apply (depth : Nat) (operator : Val) (arguments : List Val) : Run Code Val :=
  operator.applyWith (Code.run depth) arguments

end MiniLisp
