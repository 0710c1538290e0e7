import MiniLisp.Code.Evaluation
import MiniLisp.Proofs.Code.Identities

/-!
# A direct evaluator

Evaluation that keeps no code.  The body of a procedure is its expressions, which are looked at
again each time they are evaluated, and every form has a rule of its own.

A `cond` without a clause that applies has the value of an empty list that is the same each time.
The lists of an expression are given out beforehand: `next` is the first of them, and each `cond`
takes one, in the order in which they stand.
-/

namespace MiniLisp

inductive Source where
  | body (next : Identity) (expressions : List (Value Source))
  /-- A procedure to make: the body of a procedure whose signature has a signature for its name. -/
  | curried (parameters : List Symbol) (inner : Source)

abbrev Term :=
  Value Source

namespace Direct

def each (evaluate : Identity → Term → Run Source Term) :
    Identity → List Term → Run Source (List Term)
  | _, [] => pure []
  | next, e :: es => do
      let v ← evaluate next e
      let vs ← each evaluate (next + e.conds) es
      pure (v :: vs)

mutual

def eval (depth : Nat) (next : Identity) (e : Term) (env : Env) : Run Source Term :=
  match depth, e with
  | 0, _ => Run.tooDeep
  | _ + 1, .atom (.symbol name) => Run.lookup env name
  | depth + 1, .list _ (head :: rest) =>
      match Keyword.ofHead? head with
      | some keyword => evalForm depth next keyword rest env
      | none => do
          let operator ← eval depth next head env
          let arguments ← each (fun next e => eval depth next e env) (next + head.conds) rest
          operator.applyWith (enter depth) arguments
  | _ + 1, constant => pure constant
termination_by (depth, sizeOf e, 0)

/-- Evaluates what follows a keyword; the expressions in it may nest `depth` deep. -/
def evalForm (depth : Nat) (next : Identity) (keyword : Keyword) (items : List Term) (env : Env) :
    Run Source Term :=
  match keyword, items with
  | .quote, [datum] => pure datum
  | .quote, _ => Run.fail .quoteOperands
  | .branch, [test, consequent] => do
      let v ← eval depth next test env
      if v.isTrue then eval depth (next + test.conds) consequent env else pure .undefined
  | .branch, [test, consequent, alternative] => do
      let v ← eval depth next test env
      if v.isTrue then eval depth (next + test.conds) consequent env
      else eval depth (next + test.conds + consequent.conds) alternative env
  | .branch, _ => Run.fail .branchOperands
  | .sequence, body => evalBody (depth + 1) next body env
  | .define, [.atom (.symbol name), value] => do
      let v ← eval depth next value env
      Run.define env name v
      pure v
  | .define, .list id signature :: body =>
      match Value.defined? Source.curried (.list id signature) (.body next body) with
      | some (name, procedure) => do
          let v ← enter depth procedure env
          Run.define env name v
          pure v
      | none => Run.fail .defineTarget
  | .define, _ => Run.fail .defineTarget
  | .assign, [.atom (.symbol name), value] => do
      let v ← eval depth next value env
      Run.assign env name v
      pure v
  | .assign, _ => Run.fail .assignOperands
  | .lambda, .list _ parameters :: body =>
      match Derived.parameterNames parameters with
      | .error cause => Run.fail cause
      | .ok names => do
          let id ← Run.fresh
          pure (.procedure id names (.body next body) env)
  | .lambda, _ => Run.fail .lambdaParameters
  | .cond, clauses => evalClauses (depth + 1) next (next + 1) clauses env
  | .letForm, .list _ bindings :: body =>
      match Derived.bindingParts bindings with
      | .error cause => Run.fail cause
      | .ok (names, values) => do
          let arguments ← each (fun next e => eval depth next e env)
            (next + Value.itemsConds body) values
          let inner ← Run.extend env names arguments
          evalBody depth next body inner
  | .letForm, _ => Run.fail .letBindings
termination_by (depth + 1, sizeOf items, 1)

/-- Evaluates the expressions of a body in order; the value is that of the last one. -/
def evalBody (depth : Nat) (next : Identity) (body : List Term) (env : Env) : Run Source Term :=
  match depth, body with
  | 0, _ => Run.tooDeep
  | _ + 1, [] => Run.fail .emptySequence
  | depth + 1, [e] => eval (depth + 1) next e env
  | depth + 1, e :: es => do
      let _ ← eval depth next e env
      evalBody depth (next + e.conds) es env
termination_by (depth, sizeOf body, 0)

/-- Evaluates the body of the first clause whose test holds; nothing after it is looked at.  Without
one the value is the empty list `ending`. -/
def evalClauses (depth : Nat) (ending next : Identity) (clauses : List Term) (env : Env) :
    Run Source Term :=
  match depth, clauses with
  | 0, _ => Run.tooDeep
  | _ + 1, [] => pure (.list ending [])
  | depth + 1, .list _ (test :: body) :: rest =>
      if test.symbol? = some Keyword.otherwise then evalBody depth next body env
      else do
        let v ← eval depth next test env
        if v.isTrue then evalBody depth (next + test.conds) body env
        else evalClauses depth ending (next + test.conds + Value.itemsConds body) rest env
  | _ + 1, clause :: _ => Run.fail (.condClause clause.shown)
termination_by (depth, sizeOf clauses, 0)

def enter (depth : Nat) (source : Source) (env : Env) : Run Source Term :=
  match depth, source with
  | 0, _ => Run.tooDeep
  | depth + 1, .body next expressions => evalBody (depth + 1) next expressions env
  | _ + 1, .curried parameters inner => do
      let id ← Run.fresh
      pure (.procedure id parameters inner env)
termination_by (depth, sizeOf source, 0)

end

end Direct
end MiniLisp
