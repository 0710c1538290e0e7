import MiniLisp.Code
import MiniLisp.Code.Weight
import MiniLisp.Run

/-!
# Analysis

Analysis turns an expression into code.  It looks at the shape of the whole expression, bodies of
procedures and branches that may never run included, and changes nothing.  A fault in a keyword
form blames the innermost such form; where a derived form is at fault, that may be the form it
stands for.

The empty list at the end of a `cond` is one list for all runs of the code, so analysis gives out
an identity for it.
-/

namespace MiniLisp

/-- A computation that may give out identities and may stop with a fault. -/
abbrev Analysis (α : Type) :=
  StateT Identity (Except Fault) α

namespace Analysis

variable {α : Type}

def fail (cause : Fault.Cause) : Analysis α :=
  fun _ => .error { cause }

def fresh : Analysis Identity :=
  fun next => .ok (next, next + 1)

/-- Blames a form for a fault that blames none yet. -/
def blaming (form : Val) (analysis : Analysis α) : Analysis α :=
  fun next =>
    match analysis next with
    | .ok result => .ok result
    | .error fault => .error (fault.blame form.shown)

end Analysis

namespace Code

open Analysis (fail)

mutual

def analyze (e : Val) : Analysis Code :=
  match e with
  | .atom (.symbol name) => pure (.reference name)
  | .list id (head :: rest) =>
      match _keyword : Keyword.ofHead? head with
      | some keyword =>
          Analysis.blaming (.list id (head :: rest)) (analyzeForm keyword id rest)
      | none => do
          let operator ← analyze head
          let operands ← analyzeEach rest
          pure (.application operator operands)
  | other => pure (.literal other)
termination_by e.weight
decreasing_by
  · rw [Value.weight_of_keyword _keyword]
    omega
  · rw [Value.weight_of_application _keyword]
    omega
  · rw [Value.weight_of_application _keyword]
    have := Derived.weight_pos head
    omega

def analyzeForm (keyword : Keyword) (id : Identity) (items : List Val) : Analysis Code :=
  match keyword, items with
  | .quote, [datum] => pure (.literal datum)
  | .quote, _ => fail .quoteOperands
  | .branch, [test, consequent] => do
      let t ← analyze test
      let c ← analyze consequent
      pure (.branch t c (.literal .undefined))
  | .branch, [test, consequent, alternative] => do
      let t ← analyze test
      let c ← analyze consequent
      let a ← analyze alternative
      pure (.branch t c a)
  | .branch, _ => fail .branchOperands
  | .sequence, body => analyzeBody body
  | .define, .list signature (name :: parameters) :: body =>
      analyze (Derived.procedureDefinition id signature name parameters body)
  | .define, .list _ [] :: _ => fail .defineWithoutName
  | .define, [.atom (.symbol name), value] => do
      let v ← analyze value
      pure (.define name v)
  | .define, .atom (.symbol name) :: _ => fail (.defineOperands name)
  | .define, _ => fail .defineTarget
  | .assign, [.atom (.symbol name), value] => do
      let v ← analyze value
      pure (.assign name v)
  | .assign, _ => fail .assignOperands
  | .lambda, .list _ parameters :: body =>
      match Derived.parameterNames parameters with
      | .error cause => fail cause
      | .ok names => do
          let code ← analyzeBody body
          pure (.lambda names code)
  | .lambda, _ => fail .lambdaParameters
  | .cond, clauses => do
      let ending ← Analysis.fresh
      match _expansion : Derived.conditional id (.list ending []) clauses with
      | .error cause => fail cause
      | .ok e => analyze e
  | .letForm, .list _ bindings :: body =>
      match _parts : Derived.bindingParts bindings with
      | .error cause => fail cause
      | .ok (names, values) => analyze (Derived.localScope id names values body)
  | .letForm, _ => fail .letBindings
termination_by Value.formWeight keyword items
decreasing_by
  all_goals simp only [Value.formWeight, Value.itemsWeight]
  any_goals omega
  · exact Derived.weight_procedureDefinition_lt id signature name parameters body
  · simp only [Value.definitionWeight, Value.itemsWeight]
    omega
  · exact Derived.weight_conditional_lt _expansion
  · exact Derived.weight_localScope_lt body _parts

/-- The code of a body: its expressions in order, of which the last gives the value. -/
def analyzeBody (body : List Val) : Analysis Code :=
  match body with
  | [] => fail .emptySequence
  | [e] => analyze e
  | e :: rest => do
      let first ← analyze e
      let second ← analyzeBody rest
      pure (.andThen first second)
termination_by Value.itemsWeight body
decreasing_by
  all_goals simp only [Value.itemsWeight]
  all_goals omega

def analyzeEach (items : List Val) : Analysis (List Code) :=
  match items with
  | [] => pure []
  | e :: rest => do
      let code ← analyze e
      let codes ← analyzeEach rest
      pure (code :: codes)
termination_by Value.itemsWeight items
decreasing_by
  all_goals simp only [Value.itemsWeight]
  all_goals omega

end

end Code

def Run.analyze (e : Val) : Run Code Code :=
  ExceptT.mk fun s =>
    match Code.analyze e s.nextIdentity with
    | .ok (code, after) => some (.ok code, { s with nextIdentity := after })
    | .error fault => some (.error fault, s)

end MiniLisp
