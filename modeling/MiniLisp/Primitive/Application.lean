import MiniLisp.Number.Remainder
import MiniLisp.Run

/-!
# Applying primitives

Primitives do not check how many arguments they get: a missing argument is undefined, and one too
many is not looked at.  Arithmetic folds over all its arguments from the left and stops at the
first that is not a number.
-/

namespace MiniLisp
namespace Primitive

variable {β : Type}

def argument (arguments : List (Value β)) (position : Nat) : Value β :=
  arguments[position]?.getD .undefined

/-! ## Arithmetic -/

def number (operation : Primitive) (v : Value β) : Except Fault.Cause Float :=
  match v with
  | .atom (.number x) => .ok x
  | _ => .error (.wrongType operation.name "number" v.shown)

def foldFrom (operation : Primitive) (f : Float → Float → Float) (x : Float) :
    List (Value β) → Except Fault.Cause Float
  | [] => .ok x
  | v :: rest =>
      match number operation v with
      | .ok y => foldFrom operation f (f x y) rest
      | .error cause => .error cause

/-- Folds the arguments from the left, starting from the first; no arguments give the seed. -/
def fold (operation : Primitive) (f : Float → Float → Float) (seed : Float) :
    List (Value β) → Except Fault.Cause Float
  | [] => .ok seed
  | v :: rest =>
      match number operation v with
      | .ok x => foldFrom operation f x rest
      | .error cause => .error cause

/-! ## Lists -/

def items (operation : Primitive) (v : Value β) : Except Fault.Cause (List (Value β)) :=
  match v with
  | .list _ items => .ok items
  | _ => .error (.wrongType operation.name "list" v.shown)

/-- The items of the list that `cons` makes: `tail` gives its items, or is the second item. -/
def consItems (head tail : Value β) : List (Value β) :=
  match tail with
  | .list _ items => head :: items
  | other => [head, other]

/-! ## Characters -/

/-- The character whose code point is the whole part of a number. -/
def character? (x : Float) : Option Char :=
  if x.isFinite ∧ 0 ≤ x ∧ x ≤ 4294967295 then
    let point := x.toUInt32
    if valid : point.isValidChar then some ⟨point, valid⟩ else none
  else
    none

def characterText (v : Value β) : Except Fault.Cause String :=
  match v.number?.bind character? with
  | some c => .ok c.toString
  | none => .error (.wrongType chr.name "a code point" v.shown)

/-- What `alert` prints: a string without quotes, anything else as it is written. -/
def alertText : Value β → String
  | .atom (.string contents) => contents
  | other => other.shown

/-! ## Application -/

def apply (operation : Primitive) (arguments : List (Value β)) : Run β (Value β) :=
  let first := argument arguments 0
  let second := argument arguments 1
  let arithmetic (f : Float → Float → Float) (seed : Float) : Run β (Value β) := do
    let x ← Run.ofExcept (fold operation f seed arguments)
    pure (.number x)
  match operation with
  | .add => arithmetic (fun x y => x + y) 0
  | .subtract => arithmetic (fun x y => x - y) 0
  | .multiply => arithmetic (fun x y => x * y) 1
  | .divide => arithmetic (fun x y => x / y) 0
  | .remainder => arithmetic Number.remainder 0
  | .cons => Run.makeList (consItems first second)
  | .car => do
      let items ← Run.ofExcept (items operation first)
      pure (items.head?.getD .undefined)
  | .cdr => do
      let items ← Run.ofExcept (items operation first)
      Run.makeList (items.drop 1)
  | .list => Run.makeList arguments
  | .chr => do
      let text ← Run.ofExcept (characterText first)
      pure (.atom (.string text))
  | .identical => pure (.bool (first.identical second))
  | .null => pure (.bool first.isNull)
  | .pair => pure (.bool first.isPair)
  | .alert => do
      Run.print (alertText first)
      pure .undefined

end Primitive
end MiniLisp
