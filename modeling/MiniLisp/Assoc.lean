/-!
# Association lists

A list of keys with values in which a key counts where it first occurs.  The view of such a list
is what it finds for each key.

## Main statements

* `find?_put`: after a value is put under a key, that key finds it and all others find what they
  found before.
* `keys_put`: no key goes, and at most the one that a value is put under comes.
-/

namespace MiniLisp
namespace Assoc

variable {κ α : Type} [DecidableEq κ]

def find? (key : κ) : List (κ × α) → Option α
  | [] => none
  | (k, v) :: rest => if k = key then some v else find? key rest

/-- Puts a value under a key, in the place of the key's old value if it has one and else at
the end. -/
def put (key : κ) (value : α) : List (κ × α) → List (κ × α)
  | [] => [(key, value)]
  | (k, v) :: rest => if k = key then (key, value) :: rest else (k, v) :: put key value rest

def keys (pairs : List (κ × α)) : List κ :=
  pairs.map Prod.fst

theorem find?_put (pairs : List (κ × α)) (key other : κ) (value : α) :
    find? other (put key value pairs) = if key = other then some value else find? other pairs := by
  induction pairs with
  | nil => simp [put, find?]
  | cons pair rest ih =>
      obtain ⟨k, v⟩ := pair
      by_cases hk : k = key
      · subst hk
        by_cases ho : k = other <;> simp [put, find?, ho]
      · by_cases ho : k = other
        · subst ho
          simp [put, find?, hk, Ne.symm hk]
        · simp [put, find?, hk, ho, ih]

theorem put_put (pairs : List (κ × α)) (key : κ) (value other : α) :
    put key other (put key value pairs) = put key other pairs := by
  induction pairs with
  | nil => simp [put]
  | cons pair rest ih =>
      obtain ⟨k, v⟩ := pair
      by_cases hk : k = key <;> simp [put, hk, ih]

theorem put_of_find? {pairs : List (κ × α)} {key : κ} {value : α}
    (h : find? key pairs = some value) : put key value pairs = pairs := by
  induction pairs with
  | nil => simp [find?] at h
  | cons pair rest ih =>
      obtain ⟨k, v⟩ := pair
      by_cases hk : k = key
      · simp_all [find?, put]
      · simp only [find?, hk, if_false] at h
        simp [put, hk, ih h]

theorem mem_of_find? {pairs : List (κ × α)} {key : κ} {value : α}
    (h : find? key pairs = some value) : (key, value) ∈ pairs := by
  induction pairs with
  | nil => simp [find?] at h
  | cons pair rest ih =>
      obtain ⟨k, v⟩ := pair
      by_cases hk : k = key
      · simp_all [find?]
      · simp only [find?, hk, if_false] at h
        exact List.mem_cons_of_mem _ (ih h)

theorem mem_put {pairs : List (κ × α)} {key : κ} {value : α} {pair : κ × α}
    (h : pair ∈ put key value pairs) : pair = (key, value) ∨ pair ∈ pairs := by
  induction pairs with
  | nil => simpa [put] using h
  | cons first rest ih =>
      obtain ⟨k, v⟩ := first
      by_cases hk : k = key
      · simp only [put, hk, if_true, List.mem_cons] at h
        exact h.imp_right (List.mem_cons_of_mem _)
      · simp only [put, hk, if_false, List.mem_cons] at h
        rcases h with rfl | h
        · exact Or.inr List.mem_cons_self
        · exact (ih h).imp_right (List.mem_cons_of_mem _)

theorem isSome_find?_iff (pairs : List (κ × α)) (key : κ) :
    (find? key pairs).isSome ↔ key ∈ keys pairs := by
  induction pairs with
  | nil => simp [find?, keys]
  | cons pair rest ih =>
      obtain ⟨k, v⟩ := pair
      by_cases hk : k = key
      · simp [find?, keys, hk]
      · simpa [find?, keys, hk, Ne.symm hk] using ih

/-- Putting a value under a key adds the key at the end unless it is there. -/
theorem keys_put (pairs : List (κ × α)) (key : κ) (value : α) :
    keys (put key value pairs) =
      if key ∈ keys pairs then keys pairs else keys pairs ++ [key] := by
  induction pairs with
  | nil => rfl
  | cons pair rest ih =>
      rcases pair with ⟨k, v⟩
      by_cases hk : k = key
      · subst hk
        simp [put, keys]
      · have hkeys : keys (put key value ((k, v) :: rest)) = k :: keys (put key value rest) := by
          rw [put, if_neg hk]
          rfl
        rw [hkeys, ih]
        by_cases hkey : key ∈ keys rest
        · rw [if_pos hkey, if_pos]
          · rfl
          · exact List.mem_cons_of_mem k hkey
        · rw [if_neg hkey, if_neg]
          · rfl
          · intro hmem
            cases hmem with
            | head => exact hk rfl
            | tail _ hmem => exact hkey hmem

end Assoc
end MiniLisp
