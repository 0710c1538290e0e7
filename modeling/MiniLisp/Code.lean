import MiniLisp.Value

/-!
# Code

Code is what an expression has become once its shape has been looked at: it can be run in any
environment any number of times.  A procedure made by a program has code as its body.
-/

namespace MiniLisp

inductive Code where
  | literal (value : Value Code)
  | reference (name : Symbol)
  | branch (test consequent alternative : Code)
  | andThen (first second : Code)
  | application (operator : Code) (operands : List Code)
  | define (name : Symbol) (value : Code)
  | assign (name : Symbol) (value : Code)
  | lambda (parameters : List Symbol) (body : Code)

abbrev Val :=
  Value Code

end MiniLisp
