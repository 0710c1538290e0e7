import Std.Data.HashMap

/-!
# Symbol tables

A table gives each name a symbol when the name first comes, and finds the name for a symbol again.
Interning looks a name up first, which spares a table that knows the name already.

What a table has to offer for that is a `NameStore`.  `SymbolTable` is one with numbers for
symbols.
-/

namespace MiniLisp

/-- What can be done with tables of type `τ` whose symbols have type `σ`. -/
structure NameStore (τ σ : Type) where
  get : τ → String → Option σ
  getOrStore : τ → String → σ × τ
  resolve : τ → σ → Option String

namespace NameStore

variable {τ σ : Type} (N : NameStore τ σ)

/-- The symbol of a name.  Nothing is stored for a name that is found. -/
def intern (t : τ) (name : String) : σ × τ :=
  match N.get t name with
  | some s => (s, t)
  | none => N.getOrStore t name

def internAll (t : τ) : List String → List σ × τ
  | [] => ([], t)
  | name :: rest =>
      let (s, t) := N.intern t name
      let (symbols, t) := internAll t rest
      (s :: symbols, t)

/-- What `f` makes of the name of a symbol; nothing for a symbol that has no name. -/
def withName {α : Type} (t : τ) (s : σ) (f : String → α) : Option α :=
  (N.resolve t s).map f

def nameOf (t : τ) (s : σ) : Option String :=
  N.withName t s id

/-- The name of a symbol, written behind what is there. -/
def display (t : τ) (s : σ) (out : String) : Option String :=
  N.withName t s (out ++ ·)

end NameStore

structure SymbolTable where
  names : Array String := #[]
  numbers : Std.HashMap String Nat := {}
  numbers_iff : ∀ (name : String) (n : Nat), numbers[name]? = some n ↔ names[n]? = some name := by
    simp

namespace SymbolTable

def enter (table : SymbolTable) (name : String) (hnew : table.numbers[name]? = none) :
    SymbolTable where
  names := table.names.push name
  numbers := table.numbers.insert name table.names.size
  numbers_iff := by
    intro other n
    have hiff := table.numbers_iff
    rw [Std.HashMap.getElem?_insert, Array.getElem?_push]
    grind

def getOrEnter (table : SymbolTable) (name : String) : Nat × SymbolTable :=
  match hfind : table.numbers[name]? with
  | some n => (n, table)
  | none => (table.names.size, table.enter name hfind)

def store : NameStore SymbolTable Nat where
  get table name := table.numbers[name]?
  getOrStore := getOrEnter
  resolve table n := table.names[n]?

def internAll (table : SymbolTable) (names : List String) : List Nat × SymbolTable :=
  store.internAll table names

def resolve (table : SymbolTable) (n : Nat) : String :=
  (store.nameOf table n).getD ""

end SymbolTable
end MiniLisp
