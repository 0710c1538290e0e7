import Mathlib
import MiniLisp.Symbol.Table

/-!
# One symbol for each name

A name that is stored in a table keeps its symbol, whatever is interned afterwards.  So two calls
answer with the same symbol only for the same name, and the symbol has that name from then on.
This is shown for histories of calls that end one after the other.  One caller who interns names
in order makes such a history, and so do several callers by turns: between the time when one of
them looks a name up and the time when it stores the name, others may have stored it.

## Main statements

* `NameStore.Lawful.get_of_history`: at the end of a history every name of a call has the symbol
  that was the answer.
* `NameStore.one_symbol_per_name`: names and symbols correspond one to one.
* `SymbolTable.store_lawful`: the numbers of a symbol table are such symbols.
-/

namespace MiniLisp
namespace NameStore

variable {τ σ : Type}

structure Lawful (N : NameStore τ σ) : Prop where
  get_getOrStore : ∀ t name other, N.get (N.getOrStore t name).2 other =
    if name = other then some (N.getOrStore t name).1 else N.get t other
  getOrStore_of_get : ∀ t name s, N.get t name = some s → N.getOrStore t name = (s, t)
  resolve_eq_some_iff : ∀ t s name, N.resolve t s = some name ↔ N.get t name = some s

/-- Names keep their symbols from one table to a later one. -/
def Keeps (N : NameStore τ σ) (t u : τ) : Prop :=
  ∀ name s, N.get t name = some s → N.get u name = some s

/-- How a call for a name ends: with the symbol that is found, or by storing the name.  A call
that has not found its name stores it at a later time, when the name may be there. -/
inductive Answers (N : NameStore τ σ) : τ → String → σ → τ → Prop
  | found {t : τ} {name : String} {s : σ} : N.get t name = some s → Answers N t name s t
  | stored (t : τ) (name : String) :
      Answers N t name (N.getOrStore t name).1 (N.getOrStore t name).2

inductive History (N : NameStore τ σ) : τ → List (String × σ) → τ → Prop
  | nil (t : τ) : History N t [] t
  | cons {t u v : τ} {name : String} {s : σ} {calls : List (String × σ)} :
      Answers N t name s u → History N u calls v → History N t ((name, s) :: calls) v

variable {N : NameStore τ σ}

/-!
# Interning as a history
-/

theorem answers_intern (t : τ) (name : String) :
    N.Answers t name (N.intern t name).1 (N.intern t name).2 := by
  rw [intern]
  cases hget : N.get t name with
  | none => exact .stored t name
  | some s => exact .found hget

theorem history_internAll (t : τ) (names : List String) :
    N.History t (names.zip (N.internAll t names).1) (N.internAll t names).2 := by
  induction names generalizing t with
  | nil => exact .nil t
  | cons name rest ih => exact .cons (answers_intern t name) (ih (N.intern t name).2)

/-!
# What calls keep
-/

namespace Lawful

theorem eq_iff_of_get (hN : N.Lawful) {t : τ} {a b : String} {s s' : σ} (ha : N.get t a = some s)
    (hb : N.get t b = some s') :
    s = s' ↔ a = b := by
  constructor
  · rintro rfl
    have hname := (hN.resolve_eq_some_iff t s a).mpr ha
    rw [(hN.resolve_eq_some_iff t s b).mpr hb] at hname
    exact (Option.some.inj hname).symm
  · rintro rfl
    exact Option.some.inj (ha.symm.trans hb)

theorem get_of_answers (hN : N.Lawful) {t u : τ} {name : String} {s : σ}
    (h : N.Answers t name s u) :
    N.get u name = some s := by
  cases h with
  | found hget => exact hget
  | stored => rw [hN.get_getOrStore, if_pos rfl]

theorem keeps_of_answers (hN : N.Lawful) {t u : τ} {name : String} {s : σ}
    (h : N.Answers t name s u) :
    N.Keeps t u := by
  intro other r hother
  cases h with
  | found => exact hother
  | stored =>
      by_cases heq : name = other
      · subst heq
        rw [hN.getOrStore_of_get t name r hother]
        exact hother
      · rw [hN.get_getOrStore, if_neg heq]
        exact hother

theorem keeps_of_history (hN : N.Lawful) {t u : τ} {calls : List (String × σ)}
    (h : N.History t calls u) :
    N.Keeps t u := by
  induction h with
  | nil t => exact fun _ _ hget => hget
  | cons hanswer _ ih =>
      intro name s hget
      exact ih name s (hN.keeps_of_answers hanswer name s hget)

/-- At the end of a history every name of a call has the symbol that was the answer. -/
theorem get_of_history (hN : N.Lawful) {t u : τ} {calls : List (String × σ)}
    (h : N.History t calls u) {name : String} {s : σ} (hcall : (name, s) ∈ calls) :
    N.get u name = some s := by
  induction h with
  | nil t => cases hcall
  | cons hanswer hrest ih =>
      cases hcall with
      | head => exact hN.keeps_of_history hrest name s (hN.get_of_answers hanswer)
      | tail _ hcall => exact ih hcall

theorem keeps_internAll (hN : N.Lawful) (t : τ) (names : List String) :
    N.Keeps t (N.internAll t names).2 :=
  hN.keeps_of_history (history_internAll t names)

theorem get_intern (hN : N.Lawful) (t : τ) (name : String) :
    N.get (N.intern t name).2 name = some (N.intern t name).1 :=
  hN.get_of_answers (answers_intern t name)

theorem withName_of_get (hN : N.Lawful) {t : τ} {name : String} {s : σ}
    (h : N.get t name = some s) {α : Type} (f : String → α) :
    N.withName t s f = some (f name) := by
  rw [withName, (hN.resolve_eq_some_iff t s name).mpr h, Option.map_some]

end Lawful

end NameStore

namespace SymbolTable

/-!
# Numbers as symbols
-/

theorem get_enter (table : SymbolTable) (name other : String)
    (hnew : table.numbers[name]? = none) :
    store.get (table.enter name hnew) other =
      if name = other then some table.names.size else store.get table other := by
  simp only [store, enter, Std.HashMap.getElem?_insert, beq_iff_eq]

theorem getOrEnter_of_get {table : SymbolTable} {name : String} {n : Nat}
    (h : store.get table name = some n) :
    table.getOrEnter name = (n, table) := by
  rw [getOrEnter]
  split
  · next m hfind => rw [Option.some.inj (hfind.symm.trans h)]
  · next hfind => cases hfind.symm.trans h

theorem get_getOrEnter (table : SymbolTable) (name other : String) :
    store.get (table.getOrEnter name).2 other =
      if name = other then some (table.getOrEnter name).1 else store.get table other := by
  rw [getOrEnter]
  split
  · next n hfind =>
      by_cases heq : name = other
      · rw [if_pos heq]
        exact heq ▸ hfind
      · rw [if_neg heq]
  · next hfind => exact get_enter table name other hfind

/-- Names and numbers are stored together, so each is found for the other. -/
theorem store_lawful : store.Lawful where
  get_getOrStore := get_getOrEnter
  getOrStore_of_get := fun _ _ _ h => getOrEnter_of_get h
  resolve_eq_some_iff := fun table n name => (table.numbers_iff name n).symm

end SymbolTable

namespace NameStore

/-!
# Names and symbols
-/

variable {τ σ : Type} {N : NameStore τ σ}

/-- Names and symbols correspond one to one.  Two calls, with any other names interned before the
first and between them, answer with the same symbol just if their names are equal.  Whatever is
interned afterwards, the symbol has the name of its call: this is the name that a function of it
gets, and the one that is shown.  The same is so of calls by several callers, however these take
their turns. -/
theorem one_symbol_per_name (hN : N.Lawful) :
    (∀ start before a between b,
      let first := N.intern (N.internAll start before).2 a
      let second := N.intern (N.internAll first.2 between).2 b
      first.1 = second.1 ↔ a = b) ∧
    (∀ start before a later,
      let first := N.intern (N.internAll start before).2 a
      let t := (N.internAll first.2 later).2
      N.nameOf t first.1 = some a ∧
        (∀ {α : Type} (f : String → α), N.withName t first.1 f = some (f a)) ∧
        ∀ out, N.display t first.1 out = some (out ++ a)) ∧
    ∀ start calls t, N.History start calls t →
      (∀ a s b s', (a, s) ∈ calls → (b, s') ∈ calls → (s = s' ↔ a = b)) ∧
        ∀ a s, (a, s) ∈ calls → N.nameOf t s = some a := by
  refine ⟨?_, ?_, ?_⟩
  · intro start before a between b first second
    have hfirst : N.get second.2 a = some first.1 :=
      hN.keeps_of_answers (answers_intern _ b) a first.1
        (hN.keeps_internAll first.2 between a first.1 (hN.get_intern _ a))
    exact hN.eq_iff_of_get hfirst (hN.get_intern _ b)
  · intro start before a later first t
    have hfirst : N.get t a = some first.1 :=
      hN.keeps_internAll first.2 later a first.1 (hN.get_intern _ a)
    exact ⟨hN.withName_of_get hfirst id, hN.withName_of_get hfirst,
      fun out => hN.withName_of_get hfirst (out ++ ·)⟩
  · intro start calls t hcalls
    constructor
    · intro a s b s' ha hb
      exact hN.eq_iff_of_get (hN.get_of_history hcalls ha) (hN.get_of_history hcalls hb)
    · intro a s ha
      exact hN.withName_of_get (hN.get_of_history hcalls ha) id

theorem one_symbol_per_name_of_car_cdr :
    let store := SymbolTable.store
    let car := store.intern {} "car"
    let t := (store.internAll car.2 ["cons", "car"]).2
    store.Lawful ∧ car.1 = (store.intern t "car").1 ∧ car.1 ≠ (store.intern t "cdr").1 ∧
      store.nameOf t car.1 = some "car" := by
  intro store car t
  have hnames := one_symbol_per_name SymbolTable.store_lawful
  have hcar := hnames.1 {} [] "car" ["cons", "car"] "car"
  have hcdr := hnames.1 {} [] "car" ["cons", "car"] "cdr"
  have hname := (hnames.2.1 {} [] "car" ["cons", "car"]).1
  exact ⟨SymbolTable.store_lawful, hcar.mpr rfl, fun heq => absurd (hcdr.mp heq) (by decide), hname⟩

end NameStore
end MiniLisp
