import MiniLisp.Store

/-!
# Runs

A run starts from a store and ends in a store with a value or a fault.  What was done before a
fault stays done.  A run whose calls nest deeper than it was allowed has no end at all, which is
kept apart from a fault.
-/

namespace MiniLisp

/-- A computation on a store: `none` when it was not allowed to nest deep enough. -/
abbrev Run (β α : Type) :=
  ExceptT Fault (StateT (Store β) Option) α

namespace Run

variable {β α : Type}

@[inline] def step (f : Store β → α × Store β) : Run β α :=
  ExceptT.mk fun s =>
    let (a, s) := f s
    some (.ok a, s)

@[inline] def fail (cause : Fault.Cause) : Run β α :=
  ExceptT.mk fun s => some (.error { cause }, s)

def ofExcept : Except Fault.Cause α → Run β α
  | .ok a => pure a
  | .error cause => fail cause

def tooDeep : Run β α :=
  ExceptT.mk fun _ => none

def fresh : Run β Identity :=
  step fun s => (s.nextIdentity, { s with nextIdentity := s.nextIdentity + 1 })

def makeList (items : List (Value β)) : Run β (Value β) :=
  step fun s => (.list s.nextIdentity items, { s with nextIdentity := s.nextIdentity + 1 })

/-- Makes the value of a datum, with new identities for its lists. -/
def makeValue (d : Datum) : Run β (Value β) :=
  step fun s =>
    let (v, after) := Value.ofDatum s.nextIdentity d
    (v, { s with nextIdentity := after })

def print (line : String) : Run β Unit :=
  step fun s => ((), { s with output := s.output.push line })

def lookup (env : Env) (name : Symbol) : Run β (Value β) :=
  ExceptT.mk fun s =>
    match s.lookup? env name with
    | some v => some (.ok v, s)
    | none => some (.error { cause := .unbound name }, s)

def define (env : Env) (name : Symbol) (value : Value β) : Run β Unit :=
  step fun s => ((), s.define env name value)

def assign (env : Env) (name : Symbol) (value : Value β) : Run β Unit :=
  ExceptT.mk fun s =>
    match s.assign? env name value with
    | some after => some (.ok (), after)
    | none => some (.error { cause := .unbound name }, s)

def newEnv : Run β Env :=
  step Store.newEnv

def extend (env : Env) (parameters : List Symbol) (arguments : List (Value β)) : Run β Env :=
  step fun s => s.extend env parameters arguments

end Run
end MiniLisp
