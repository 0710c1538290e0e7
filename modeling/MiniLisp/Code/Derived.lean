import MiniLisp.Code.Keyword
import MiniLisp.Fault

/-!
# Derived forms

Three keyword forms stand for another expression, which is built here.

* `(define (name parameter ...) body ...)` stands for
  `(define name (lambda (parameter ...) body ...))`.
* `(cond (test body ...) ...)` stands for nested `if` forms that end in an empty list.
* `(let ((name value) ...) body ...)` stands for `((lambda (name ...) body ...) value ...)`.

The lists that are built take the identity of the form they stand for; none of them ever becomes
a value.
-/

namespace MiniLisp
namespace Derived

open Fault (Cause)

variable {β : Type}

def form (id : Identity) (keyword : Keyword) (items : List (Value β)) : Value β :=
  .list id (.symbol keyword.symbol :: items)

def procedureDefinition (id signature : Identity) (name : Value β)
    (parameters body : List (Value β)) : Value β :=
  form id .define [name, form id .lambda (.list signature parameters :: body)]

/-- The test of a clause; `else` always holds. -/
def clauseTest (test : Value β) : Value β :=
  if test.symbol? = some Keyword.otherwise then .bool true else test

/-- The test of a clause and the one expression that its body is made into. -/
def clause (id : Identity) (c : Value β) : Except Cause (Value β × Value β) :=
  match c with
  | .list _ [_] => .error (.condBody c.shown)
  | .list _ [test, single] => .ok (clauseTest test, single)
  | .list _ (test :: body) => .ok (clauseTest test, form id .sequence body)
  | _ => .error (.condClause c.shown)

/-- What the clauses of a `cond` stand for, `ending` being the value when none applies.  Clauses
are checked from the last to the first. -/
def conditional (id : Identity) (ending : Value β) : List (Value β) → Except Cause (Value β)
  | [] => .ok ending
  | c :: rest =>
      match conditional id ending rest with
      | .error cause => .error cause
      | .ok alternative =>
          match clause id c with
          | .error cause => .error cause
          | .ok (test, consequent) => .ok (form id .branch [test, consequent, alternative])

def bindingParts : List (Value β) → Except Cause (List Symbol × List (Value β))
  | [] => .ok ([], [])
  | .list _ [.atom (.symbol name), value] :: rest =>
      match bindingParts rest with
      | .error cause => .error cause
      | .ok (names, values) => .ok (name :: names, value :: values)
  | b :: _ => .error (.letBinding b.shown)

def localScope (id : Identity) (names : List Symbol) (values body : List (Value β)) : Value β :=
  .list id (form id .lambda (.list id (names.map .symbol) :: body) :: values)

def parameterNames : List (Value β) → Except Cause (List Symbol)
  | [] => .ok []
  | p :: rest =>
      match p.symbol? with
      | none => .error (.lambdaParameter p.shown)
      | some name => (parameterNames rest).map (name :: ·)

end Derived
end MiniLisp
