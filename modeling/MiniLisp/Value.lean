import MiniLisp.Datum
import MiniLisp.Env
import MiniLisp.Primitive

/-!
# Values

A value is what an expression evaluates to.  Lists and procedures have an identity, which is
what `eq?` compares; it is given out once, when the list or procedure is made.  The type is open
in what the body of a procedure is.
-/

namespace MiniLisp

abbrev Identity :=
  Nat

/-- A value; `β` is what the body of a procedure is.  A parameter without an argument, the `car`
of an empty list and an `if` without a branch to take have the value `undefined`. -/
inductive Value (β : Type) where
  | atom (value : Atom)
  | list (id : Identity) (items : List (Value β))
  | primitive (operation : Primitive)
  | procedure (id : Identity) (parameters : List Symbol) (body : β) (env : Env)
  | undefined

namespace Value

variable {β : Type}

instance : Inhabited (Value β) := ⟨.undefined⟩

abbrev symbol (s : Symbol) : Value β :=
  .atom (.symbol s)

abbrev number (x : Float) : Value β :=
  .atom (.number x)

abbrev bool (b : Bool) : Value β :=
  .atom (.bool b)

/-! ## Text -/

mutual

def text : Value β → List Char
  | .atom a => a.text
  | .list _ items => Datum.listText (texts items)
  | .primitive p => "#<primitive ".toList ++ p.name.toList ++ ['>']
  | .procedure .. => "#<procedure>".toList
  | .undefined => "#<undefined>".toList

def texts : List (Value β) → List (List Char)
  | [] => []
  | v :: rest => text v :: texts rest

end

def shown (v : Value β) : String :=
  String.ofList v.text

/-! ## Kinds of values -/

def typeName : Value β → String
  | .atom a => a.typeName
  | .list .. => "list"
  | .primitive _ => "primitive"
  | .procedure .. => "procedure"
  | .undefined => "undefined"

/-- Everything but the false truth value counts as true. -/
def isTrue : Value β → Bool
  | .atom (.bool false) => false
  | _ => true

def isNull : Value β → Bool
  | .list _ [] => true
  | _ => false

def isPair : Value β → Bool
  | .list _ (_ :: _) => true
  | _ => false

def symbol? : Value β → Option Symbol
  | .atom (.symbol s) => some s
  | _ => none

def number? : Value β → Option Float
  | .atom (.number x) => some x
  | _ => none

def items? : Value β → Option (List (Value β))
  | .list _ items => some items
  | _ => none

/-! ## Equality -/

/-- The comparison of `eq?`: lists and procedures by identity, all else by value. -/
def identical : Value β → Value β → Bool
  | .atom a, .atom b => a.same b
  | .list i _, .list j _ => i == j
  | .primitive p, .primitive q => p == q
  | .procedure i .., .procedure j .. => i == j
  | .undefined, .undefined => true
  | _, _ => false

mutual

/-- Equality of values: lists that are not identical are compared item by item. -/
def same : Value β → Value β → Bool
  | .list i xs, .list j ys => i == j || sameItems xs ys
  | a, b => identical a b

def sameItems : List (Value β) → List (Value β) → Bool
  | [], [] => true
  | x :: xs, y :: ys => same x y && sameItems xs ys
  | _, _ => false

end

/-! ## Values from data -/

mutual

/-- The value of a datum, its lists getting the identities from `next` on; the next free identity
comes second. -/
def ofDatum (next : Identity) : Datum → Value β × Identity
  | .atom a => (.atom a, next)
  | .list ds =>
      let (items, after) := ofData (next + 1) ds
      (.list next items, after)

def ofData (next : Identity) : List Datum → List (Value β) × Identity
  | [] => ([], next)
  | d :: rest =>
      let (v, between) := ofDatum next d
      let (vs, after) := ofData between rest
      (v :: vs, after)

end

end Value
end MiniLisp
