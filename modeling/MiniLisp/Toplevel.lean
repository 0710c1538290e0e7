import MiniLisp.Code.Analysis
import MiniLisp.Code.Evaluation
import MiniLisp.Datum.Reading
import MiniLisp.ListLibrary

/-!
# The top level

A top level is an environment of one frame, the global one, in which whole texts are evaluated.
What one text defines, the next can use.  An expression is analyzed completely before any of it
runs; a text is evaluated form by form.
-/

namespace MiniLisp

/-- The depth to which a program's runs may nest unless a host says otherwise. -/
def defaultDepth : Nat :=
  1000000

def evaluate (depth : Nat) (e : Val) (env : Env) : Run Code Val := do
  let code ← Run.analyze e
  code.run depth env

structure Toplevel where
  global : Env

namespace Toplevel

def bindPrimitives (env : Env) : Run Code Unit :=
  Primitive.every.forM fun p => Run.define env ⟨p.name⟩ (.primitive p)

def new : Run Code Toplevel := do
  let env ← Run.newEnv
  bindPrimitives env
  pure ⟨env⟩

def eval (depth : Nat) (top : Toplevel) (e : Val) : Run Code Val :=
  evaluate depth e top.global

def evalDatum (depth : Nat) (top : Toplevel) (d : Datum) : Run Code Val := do
  let e ← Run.makeValue d
  top.eval depth e

def evalFirst (depth : Nat) (top : Toplevel) (text : List Char) : Run Code Val := do
  let d ← Run.ofExcept (Reading.first text)
  top.evalDatum depth d

/-- Evaluates data in order; the value is that of the last one, or `last` without any. -/
def evalEach (depth : Nat) (top : Toplevel) (last : Val) : List Datum → Run Code Val
  | [] => pure last
  | d :: rest => do
      let v ← top.evalDatum depth d
      evalEach depth top v rest

/-- Evaluates all forms of a text, up to the first fault of reading or of evaluation; the value
is that of the last form. -/
def evalText (depth : Nat) (top : Toplevel) (text : List Char) : Run Code Val := do
  let (forms, cause) := Reading.forms text
  let last ← top.evalEach depth .undefined forms
  match cause with
  | none => pure last
  | some cause => Run.fail cause

def loadLibrary (depth : Nat) (top : Toplevel) : Run Code Val :=
  top.evalFirst depth ListLibrary.text

def withLibrary (depth : Nat) : Run Code Toplevel := do
  let top ← new
  let _ ← top.loadLibrary depth
  pure top

end Toplevel
end MiniLisp
