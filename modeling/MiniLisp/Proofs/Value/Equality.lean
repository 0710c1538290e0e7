import Mathlib
import MiniLisp.Value

/-!
# The two equalities of values

Identity tells any two lists apart that were made at different times.  Equality looks into lists,
but does not look further where it meets one list twice.  This makes no difference as long as a list
is known by its identity, but for a number that is not equal to itself: a list that has such a
number in it is equal to itself, although its items are not.

## Main statements

* `Value.same_trans`: equality is transitive among values that share their lists.
* `Value.same_eq_deepSame`: it is equality item by item, unless a number is not equal to itself.
* `Value.same_eq_of_bare_eq`: then it does not depend on which lists are shared.
* `Value.equalityLaws`: the laws of the two equalities.
-/

namespace MiniLisp

namespace Atom

theorem same_comm (a b : Atom) : a.same b = b.same a := by
  cases a with
  | bool a =>
      cases b with
      | bool b => exact BEq.comm
      | _ => rfl
  | number x =>
      cases b with
      | number y => exact BEq.comm
      | _ => rfl
  | string s =>
      cases b with
      | string t => exact BEq.comm
      | _ => rfl
  | symbol a =>
      cases b with
      | symbol b => exact BEq.comm
      | _ => rfl

theorem eq_or_number_of_same {a b : Atom} (h : a.same b = true) :
    a = b ∨ ∃ x y : Float, a = .number x ∧ b = .number y ∧ (x == y) = true := by
  cases a with
  | bool a =>
      cases b with
      | bool b => exact .inl (congrArg Atom.bool (eq_of_beq h))
      | _ => cases h
  | number x =>
      cases b with
      | number y => exact .inr ⟨x, y, rfl, rfl, h⟩
      | _ => cases h
  | string s =>
      cases b with
      | string t => exact .inl (congrArg Atom.string (eq_of_beq h))
      | _ => cases h
  | symbol a =>
      cases b with
      | symbol b => exact .inl (congrArg Atom.symbol (eq_of_beq h))
      | _ => cases h

theorem same_trans {a b c : Atom} (hab : a.same b = true) (hbc : b.same c = true) :
    a.same c = true := by
  rcases eq_or_number_of_same hab with rfl | ⟨x, y, rfl, rfl, hxy⟩
  · exact hbc
  · rcases eq_or_number_of_same hbc with rfl | ⟨_, z, hy, rfl, hyz⟩
    · exact hab
    · cases hy
      exact PartialEquivBEq.trans hxy hyz

theorem same_self_of_not_isNaN {a : Atom} (h : ∀ x : Float, a = .number x → x.isNaN = false) :
    a.same a = true := by
  cases a with
  | bool a => exact beq_self_eq_true a
  | number x =>
      have hx := h x rfl
      rw [Float.isNaN_eq_decide_eq_nan, decide_eq_false_iff_not] at hx
      exact Float.beq_self_iff.mpr hx
  | string s => exact beq_self_eq_true s
  | symbol a => exact beq_self_eq_true a

end Atom

namespace Value

variable {β : Type}

/-!
# Identity
-/

theorem identical_comm (a b : Value β) : a.identical b = b.identical a := by
  cases a with
  | atom a =>
      cases b with
      | atom b => exact Atom.same_comm a b
      | _ => rfl
  | list i =>
      cases b with
      | list j => exact BEq.comm
      | _ => rfl
  | primitive p =>
      cases b with
      | primitive q => exact BEq.comm
      | _ => rfl
  | procedure i =>
      cases b with
      | procedure j => exact BEq.comm
      | _ => rfl
  | undefined =>
      cases b with
      | _ => rfl

theorem identical_trans {a b c : Value β} (hab : a.identical b = true)
    (hbc : b.identical c = true) :
    a.identical c = true := by
  cases a with
  | atom a =>
      cases b with
      | atom b =>
          cases c with
          | atom c => exact Atom.same_trans hab hbc
          | _ => cases hbc
      | _ => cases hab
  | list i =>
      cases b with
      | list j =>
          have hij : i = j := eq_of_beq hab
          cases hij
          cases c with
          | list k => exact hbc
          | _ => cases hbc
      | _ => cases hab
  | primitive p =>
      cases b with
      | primitive q =>
          have hpq : p = q := eq_of_beq hab
          cases hpq
          exact hbc
      | _ => cases hab
  | procedure i =>
      cases b with
      | procedure j =>
          have hij : i = j := eq_of_beq hab
          cases hij
          cases c with
          | procedure k => exact hbc
          | _ => cases hbc
      | _ => cases hab
  | undefined =>
      cases b with
      | undefined => exact hbc
      | _ => cases hab

/-!
# Shared lists
-/

inductive FoundIn (x : Value β) : Value β → Prop where
  | self : FoundIn x x
  | item {id items v} :
      v ∈ items →
      FoundIn x v →
      FoundIn x (.list id items)

/-- Whether lists with the same identity, one in each of two values, have the same items. -/
def Shares (a b : Value β) : Prop :=
  ∀ id xs ys, (list id xs).FoundIn a → (list id ys).FoundIn b → xs = ys

/-- Whether among some values a list is known by its identity. -/
def Coherent (vs : List (Value β)) : Prop :=
  ∀ v ∈ vs, ∀ w ∈ vs, v.Shares w

def NoNaN (v : Value β) : Prop :=
  ∀ x : Float, (number x).FoundIn v → x.isNaN = false

theorem Shares.eq {i : Identity} {xs ys : List (Value β)} (h : Shares (list i xs) (list i ys)) :
    xs = ys :=
  h i xs ys .self .self

theorem Shares.items {i j : Identity} {xs ys : List (Value β)}
    (h : Shares (list i xs) (list j ys)) :
    ∀ x ∈ xs, ∀ y ∈ ys, x.Shares y :=
  fun _ hx _ hy id vs ws hvs hws => h id vs ws (.item hx hvs) (.item hy hws)

theorem NoNaN.items {id : Identity} {items : List (Value β)} (h : NoNaN (list id items)) :
    ∀ v ∈ items, v.NoNaN :=
  fun _ hv x hx => h x (.item hv hx)

/-!
# Equality
-/

theorem same_eq_identical {a b : Value β} (h : a.items? = none ∨ b.items? = none) :
    a.same b = a.identical b := by
  cases a with
  | list i xs =>
      cases b with
      | list j ys => rcases h with h | h <;> cases h
      | _ => rfl
  | _ => rfl

theorem same_list (i j : Identity) (xs ys : List (Value β)) :
    (list i xs).same (list j ys) = (i == j || sameItems xs ys) :=
  rfl

theorem same_of_identical {a b : Value β} (h : a.identical b = true) : a.same b = true := by
  cases a with
  | list i xs =>
      cases b with
      | list j ys =>
          rw [same_list]
          exact Bool.or_eq_true_iff.mpr (.inl h)
      | _ => cases h
  | _ => exact h

mutual

theorem same_comm (a b : Value β) : a.same b = b.same a := by
  cases a with
  | list i xs =>
      cases b with
      | list j ys => rw [same_list, same_list, sameItems_comm xs ys, @BEq.comm _ _ _ i j]
      | _ => rfl
  | atom a => rw [same_eq_identical (.inl rfl), same_eq_identical (.inr rfl), identical_comm]
  | primitive p => rw [same_eq_identical (.inl rfl), same_eq_identical (.inr rfl), identical_comm]
  | procedure i => rw [same_eq_identical (.inl rfl), same_eq_identical (.inr rfl), identical_comm]
  | undefined => rw [same_eq_identical (.inl rfl), same_eq_identical (.inr rfl), identical_comm]

theorem sameItems_comm (xs ys : List (Value β)) : sameItems xs ys = sameItems ys xs := by
  cases xs with
  | nil =>
      cases ys with
      | nil => rfl
      | cons => rfl
  | cons x xs =>
      cases ys with
      | nil => rfl
      | cons y ys => rw [sameItems, sameItems, same_comm x y, sameItems_comm xs ys]

end

mutual

/-- Equality is transitive among values that share their lists: a list stands for another one of the
same identity. -/
theorem same_trans {a b c : Value β} (hshares : a.Shares b) (hshares' : b.Shares c)
    (hab : a.same b = true) (hbc : b.same c = true) :
    a.same c = true := by
  cases a with
  | list i xs =>
      cases b with
      | list j ys =>
          cases c with
          | list k zs =>
              rw [same_list, Bool.or_eq_true_iff, beq_iff_eq] at hab hbc ⊢
              rcases hab with rfl | hab
              · cases hshares.eq
                exact hbc
              · rcases hbc with rfl | hbc
                · cases hshares'.eq
                  exact .inr hab
                · exact .inr (sameItems_trans hshares.items hshares'.items hab hbc)
          | _ => cases hbc
      | _ => cases hab
  | _ =>
      rw [same_eq_identical (.inl rfl)] at hab ⊢
      cases b with
      | list => cases hab
      | _ =>
          rw [same_eq_identical (.inl rfl)] at hbc
          exact identical_trans hab hbc

theorem sameItems_trans {xs ys zs : List (Value β)} (hshares : ∀ x ∈ xs, ∀ y ∈ ys, x.Shares y)
    (hshares' : ∀ y ∈ ys, ∀ z ∈ zs, y.Shares z) (hxy : sameItems xs ys = true)
    (hyz : sameItems ys zs = true) :
    sameItems xs zs = true := by
  cases xs with
  | nil =>
      cases ys with
      | nil => exact hyz
      | cons => cases hxy
  | cons x xs =>
      cases ys with
      | nil => cases hxy
      | cons y ys =>
          cases zs with
          | nil => cases hyz
          | cons z zs =>
              rw [sameItems, Bool.and_eq_true_iff] at hxy hyz ⊢
              constructor
              · exact same_trans (hshares x (.head _) y (.head _))
                  (hshares' y (.head _) z (.head _)) hxy.1 hyz.1
              · exact sameItems_trans
                  (fun v hv w hw => hshares v (.tail _ hv) w (.tail _ hw))
                  (fun v hv w hw => hshares' v (.tail _ hv) w (.tail _ hw)) hxy.2 hyz.2

end

/-!
# Equality item by item
-/

mutual

/-- Equality that compares all lists item by item, identical or not. -/
def deepSame : Value β → Value β → Bool
  | .list _ xs, .list _ ys => deepSameEach xs ys
  | a, b => identical a b

def deepSameEach : List (Value β) → List (Value β) → Bool
  | [], [] => true
  | x :: xs, y :: ys => deepSame x y && deepSameEach xs ys
  | _, _ => false

end

mutual

theorem deepSame_self {a : Value β} (h : a.NoNaN) : a.deepSame a = true := by
  cases a with
  | atom a =>
      apply Atom.same_self_of_not_isNaN
      rintro x rfl
      exact h x .self
  | list id items => exact deepSameEach_self h.items
  | primitive p => exact beq_self_eq_true p
  | procedure id => exact beq_self_eq_true id
  | undefined => rfl

theorem deepSameEach_self {xs : List (Value β)} (h : ∀ x ∈ xs, x.NoNaN) :
    deepSameEach xs xs = true := by
  cases xs with
  | nil => rfl
  | cons x xs =>
      rw [deepSameEach, deepSame_self (h x (.head _)),
        deepSameEach_self fun v hv => h v (.tail _ hv)]
      rfl

end

mutual

/-- Not to look into identical lists makes no difference if all numbers are equal to themselves. -/
theorem same_eq_deepSame {a b : Value β} (hshares : a.Shares b) (h : a.NoNaN) :
    a.same b = a.deepSame b := by
  cases a with
  | list i xs =>
      cases b with
      | list j ys =>
          change (i == j || sameItems xs ys) = deepSameEach xs ys
          by_cases hid : i = j
          · cases hid
            cases hshares.eq
            rw [deepSameEach_self h.items, beq_self_eq_true, Bool.true_or]
          · rw [sameItems_eq_deepSameEach hshares.items h.items, beq_false_of_ne hid,
              Bool.false_or]
      | _ => rfl
  | _ => rfl

theorem sameItems_eq_deepSameEach {xs ys : List (Value β)}
    (hshares : ∀ x ∈ xs, ∀ y ∈ ys, x.Shares y) (h : ∀ x ∈ xs, x.NoNaN) :
    sameItems xs ys = deepSameEach xs ys := by
  cases xs with
  | nil =>
      cases ys with
      | nil => rfl
      | cons => rfl
  | cons x xs =>
      cases ys with
      | nil => rfl
      | cons y ys =>
          rw [sameItems, deepSameEach,
            same_eq_deepSame (hshares x (.head _) y (.head _)) (h x (.head _)),
            sameItems_eq_deepSameEach (fun v hv w hw => hshares v (.tail _ hv) w (.tail _ hw))
              fun v hv => h v (.tail _ hv)]

end

/-!
# Values without identities
-/

mutual

def bare : Value β → Value β
  | .list _ items => .list 0 (bareEach items)
  | v => v

def bareEach : List (Value β) → List (Value β)
  | [] => []
  | v :: rest => bare v :: bareEach rest

end

mutual

theorem deepSame_bare (a b : Value β) : a.bare.deepSame b.bare = a.deepSame b := by
  cases a with
  | list i xs =>
      cases b with
      | list j ys => exact deepSameEach_bareEach xs ys
      | _ => rfl
  | _ =>
      cases b with
      | _ => rfl

theorem deepSameEach_bareEach (xs ys : List (Value β)) :
    deepSameEach (bareEach xs) (bareEach ys) = deepSameEach xs ys := by
  cases xs with
  | nil =>
      cases ys with
      | _ => rfl
  | cons x xs =>
      cases ys with
      | nil => rfl
      | cons y ys =>
          rw [bareEach, bareEach, deepSameEach, deepSameEach, deepSame_bare x y,
            deepSameEach_bareEach xs ys]

end

theorem mem_bareEach {v : Value β} {vs : List (Value β)} (h : v ∈ bareEach vs) :
    ∃ w ∈ vs, w.bare = v := by
  induction vs with
  | nil => cases h
  | cons w rest ih =>
      cases h with
      | head => exact ⟨w, .head _, rfl⟩
      | tail _ h =>
          rcases ih h with ⟨w', hw', hbare⟩
          exact ⟨w', .tail _ hw', hbare⟩

theorem bare_mem_bareEach {v : Value β} {vs : List (Value β)} (h : v ∈ vs) :
    v.bare ∈ bareEach vs := by
  induction h with
  | head => exact .head _
  | tail _ _ ih => exact .tail _ ih

theorem number_foundIn_bare {x : Float} {v : Value β} (h : (number x).FoundIn v) :
    (number x).FoundIn v.bare := by
  induction h with
  | self => exact .self
  | item hmem _ ih => exact .item (bare_mem_bareEach hmem) ih

theorem number_foundIn_of_bare {x : Float} {v w : Value β} (h : (number x).FoundIn v)
    (hbare : w.bare = v) :
    (number x).FoundIn w := by
  induction h generalizing w with
  | self =>
      cases w with
      | atom a =>
          cases hbare
          exact .self
      | _ => cases hbare
  | item hmem _ ih =>
      cases w with
      | list id items =>
          cases hbare
          rcases mem_bareEach hmem with ⟨w', hw', hbare⟩
          exact .item hw' (ih hbare)
      | _ => cases hbare

theorem NoNaN.of_bare_eq {a a' : Value β} (h : a.NoNaN) (hbare : a'.bare = a.bare) : a'.NoNaN :=
  fun x hx => h x (number_foundIn_of_bare (number_foundIn_bare hx) hbare.symm)

/-- Equality does not depend on which lists are identical. -/
theorem same_eq_of_bare_eq {a b a' b' : Value β} (hshares : a.Shares b) (hshares' : a'.Shares b')
    (h : a.NoNaN) (ha : a'.bare = a.bare) (hb : b'.bare = b.bare) :
    a'.same b' = a.same b := by
  calc
    a'.same b' = a'.deepSame b' := same_eq_deepSame hshares' (h.of_bare_eq ha)
    _ = a'.bare.deepSame b'.bare := (deepSame_bare a' b').symm
    _ = a.bare.deepSame b.bare := by rw [ha, hb]
    _ = a.deepSame b := deepSame_bare a b
    _ = a.same b := (same_eq_deepSame hshares h).symm

/-!
# The laws
-/

structure EqualityLaws (a b c : Value β) : Prop where
  identical_comm : a.identical b = b.identical a
  identical_trans : a.identical b = true → b.identical c = true → a.identical c = true
  same_comm : a.same b = b.same a
  same_trans : a.same b = true → b.same c = true → a.same c = true
  same_of_identical : a.identical b = true → a.same b = true
  same_eq_identical : a.items? = none ∨ b.items? = none → a.same b = a.identical b
  same_eq_deepSame : a.NoNaN → a.same b = a.deepSame b
  same_self : a.NoNaN → a.same a = true
  same_eq_of_bare_eq : a.NoNaN → ∀ a' b', Coherent [a', b'] → a'.bare = a.bare →
    b'.bare = b.bare → a'.same b' = a.same b

theorem Coherent.shares {a b : Value β} {rest : List (Value β)} (h : Coherent (a :: b :: rest)) :
    a.Shares b :=
  h a (.head _) b (.tail _ (.head _))

theorem equalityLaws {a b c : Value β} (h : Coherent [a, b, c]) : EqualityLaws a b c where
  identical_comm := identical_comm a b
  identical_trans := identical_trans
  same_comm := same_comm a b
  same_trans := same_trans h.shares (h b (.tail _ (.head _)) c (.tail _ (.tail _ (.head _))))
  same_of_identical := same_of_identical
  same_eq_identical := same_eq_identical
  same_eq_deepSame := same_eq_deepSame h.shares
  same_self := fun hnumbers =>
    (same_eq_deepSame (h a (.head _) a (.head _)) hnumbers).trans (deepSame_self hnumbers)
  same_eq_of_bare_eq := fun hnumbers _ _ h' ha hb =>
    same_eq_of_bare_eq h.shares h'.shares hnumbers ha hb

end Value
end MiniLisp
