import MiniLisp.Number.Numeral
import MiniLisp.Symbol

/-!
# Data

A datum is what reading a text yields: an atom or a list of data.  Every datum has one text.
-/

namespace MiniLisp

/-- A datum without parts.  A string holds the characters between
its quotes, escapes included. -/
inductive Atom where
  | bool (value : Bool)
  | number (value : Float)
  | string (contents : String)
  | symbol (name : Symbol)

namespace Atom

def text : Atom → List Char
  | .bool true => ['#', 't']
  | .bool false => ['#', 'f']
  | .number x => Number.text x
  | .string contents => '"' :: (contents.toList ++ ['"'])
  | .symbol name => name.text

/-- Equality of atoms; numbers are compared as doubles, so that what is not a number differs
from itself and the two zeros agree. -/
def same : Atom → Atom → Bool
  | .bool a, .bool b => a == b
  | .number x, .number y => x == y
  | .string s, .string t => s == t
  | .symbol a, .symbol b => a == b
  | _, _ => false

def typeName : Atom → String
  | .bool _ => "boolean"
  | .number _ => "number"
  | .string _ => "text"
  | .symbol _ => "symbol"

/-- The atom that a token stands for: a truth value, a string in quotes, a number, or else a
symbol. -/
def ofToken (token : List Char) : Atom :=
  match token with
  | ['#', 't'] => .bool true
  | ['#', 'f'] => .bool false
  | '"' :: c :: rest => .string (String.ofList (c :: rest).dropLast)
  | _ =>
      match Number.ofToken? token with
      | some x => .number x
      | none => .symbol ⟨String.ofList token⟩

end Atom

inductive Datum where
  | atom (value : Atom)
  | list (items : List Datum)

namespace Datum

def listText (items : List (List Char)) : List Char :=
  '(' :: ([' '].intercalate items ++ [')'])

mutual

def text : Datum → List Char
  | .atom a => a.text
  | .list items => listText (texts items)

def texts : List Datum → List (List Char)
  | [] => []
  | d :: rest => text d :: texts rest

end

mutual

def same : Datum → Datum → Bool
  | .atom a, .atom b => a.same b
  | .list xs, .list ys => sameItems xs ys
  | _, _ => false

def sameItems : List Datum → List Datum → Bool
  | [], [] => true
  | x :: xs, y :: ys => same x y && sameItems xs ys
  | _, _ => false

end

/-- What a quote mark before a datum stands for. -/
def quoted (d : Datum) : Datum :=
  .list [.atom (.symbol .quoteMark), d]

theorem texts_eq_map (ds : List Datum) : texts ds = ds.map text := by
  induction ds with
  | nil => rfl
  | cons d rest ih => simp [texts, ih]

end Datum
end MiniLisp
