/-!
# Symbols

A symbol is its name: two symbols are identical exactly when their names are equal.
-/

namespace MiniLisp

/-- A symbol, known by its name alone. -/
structure Symbol where
  name : String
  deriving DecidableEq, Hashable, Repr, Inhabited

namespace Symbol

/-- The symbol that a quote mark stands for: `'e` is the list of this symbol and `e`. -/
def quoteMark : Symbol := ⟨"'"⟩

def text (s : Symbol) : List Char :=
  s.name.toList

end Symbol
end MiniLisp
