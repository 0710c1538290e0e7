import MiniLisp.RegisterMachine.SavedStack

/-!
# Tables of registers

The registers of a machine in the order in which they were made.  Each stands under its own name,
and a table cannot be built in which one does not.

## Main statements

* `name_register`: the register that is found under a name has that name.
* `find?_set`: giving a register contents changes that register and nothing else.
-/

namespace MiniLisp

structure RegisterTable (β : Type) where
  entries : List (Symbol × Register β)
  named : ∀ entry ∈ entries, entry.2.name = entry.1

namespace RegisterTable

variable {β : Type}

def empty : RegisterTable β :=
  ⟨[], nofun⟩

def names (table : RegisterTable β) : List Symbol :=
  Assoc.keys table.entries

def find? (table : RegisterTable β) (name : Symbol) : Option (Register β) :=
  Assoc.find? name table.entries

/-- The register of a name; one that has not been made counts as empty. -/
def register (table : RegisterTable β) (name : Symbol) : Register β :=
  (table.find? name).getD { name }

theorem name_register (table : RegisterTable β) (name : Symbol) :
    (table.register name).name = name := by
  unfold register
  cases hfind : table.find? name with
  | none => rfl
  | some register => exact table.named (name, register) (Assoc.mem_of_find? hfind)

def set (table : RegisterTable β) (name : Symbol) (contents : Contents β) : RegisterTable β where
  entries := Assoc.put name { table.register name with contents } table.entries
  named := by
    intro entry hentry
    rcases Assoc.mem_put hentry with rfl | hentry
    · exact table.name_register name
    · exact table.named entry hentry

theorem find?_set (table : RegisterTable β) (name other : Symbol) (contents : Contents β) :
    (table.set name contents).find? other =
      if name = other then some ⟨name, contents⟩ else table.find? other := by
  have hregister : ({ table.register name with contents } : Register β) = ⟨name, contents⟩ :=
    congrArg (Register.mk · contents) (table.name_register name)
  unfold find? set
  rw [Assoc.find?_put, hregister]

theorem register_set_self (table : RegisterTable β) (name : Symbol) (contents : Contents β) :
    (table.set name contents).register name = ⟨name, contents⟩ := by
  rw [register, find?_set, if_pos rfl]
  rfl

theorem ext_entries {table other : RegisterTable β} (h : table.entries = other.entries) :
    table = other := by
  cases table
  cases other
  cases h
  rfl

theorem set_set (table : RegisterTable β) (name : Symbol) (contents other : Contents β) :
    (table.set name contents).set name other = table.set name other := by
  apply ext_entries
  simp only [set]
  rw [Assoc.put_put]
  change Assoc.put name { (table.set name contents).register name with contents := other } _ = _
  rw [register_set_self, table.name_register name]

theorem set_of_find? {table : RegisterTable β} {name : Symbol} {register : Register β}
    (h : table.find? name = some register) : table.set name register.contents = table := by
  apply ext_entries
  have hregister : table.register name = register := by
    rw [RegisterTable.register, h]
    rfl
  simp only [set, hregister]
  exact Assoc.put_of_find? h

theorem names_set (table : RegisterTable β) (name : Symbol) (contents : Contents β) :
    (table.set name contents).names =
      if name ∈ table.names then table.names else table.names ++ [name] :=
  Assoc.keys_put table.entries name _

theorem isSome_find?_iff (table : RegisterTable β) (name : Symbol) :
    (table.find? name).isSome = true ↔ name ∈ table.names :=
  Assoc.isSome_find?_iff table.entries name

end RegisterTable
end MiniLisp
