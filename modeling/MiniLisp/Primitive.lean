import MiniLisp.Symbol

/-!
# Primitives

The procedures that the language has from the start, and the names they are bound to.
-/

namespace MiniLisp

inductive Primitive where
  | add
  | subtract
  | multiply
  | divide
  | remainder
  | cons
  | car
  | cdr
  | list
  | chr
  | identical
  | null
  | pair
  | alert
  deriving DecidableEq, Repr

namespace Primitive

/-- The name a primitive is bound to and shown by. -/
def name : Primitive → String
  | .add => "+"
  | .subtract => "-"
  | .multiply => "*"
  | .divide => "/"
  | .remainder => "%"
  | .cons => "cons"
  | .car => "car"
  | .cdr => "cdr"
  | .list => "list"
  | .chr => "chr"
  | .identical => "eq?"
  | .null => "null?"
  | .pair => "pair?"
  | .alert => "alert"

def every : List Primitive :=
  [.add, .subtract, .multiply, .divide, .remainder, .cons, .car, .cdr, .list, .chr, .identical,
    .null, .pair, .alert]

theorem mem_every (p : Primitive) : p ∈ every := by
  cases p <;> simp [every]

end Primitive
end MiniLisp
