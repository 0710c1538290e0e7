import MiniLisp.Number.Decimal

/-!
# The fewest digits that read back

The text of a double has as few digits as reading them back allows.  The grids of multiples of a
power of ten are tried from the coarse to the fine; on each grid only the two neighbours of the
magnitude can read back as it, and of two that do the nearer one is taken.

## Main statement

* `code_ofCode`: the digits that are chosen read back as the magnitude they were chosen for.
-/

namespace MiniLisp
namespace Shortest

open Binary64

/-- The magnitude with this code in multiples of `10 ^ exponent`, as a quotient. -/
def inGrid (code : Nat) (exponent : Int) : Nat × Nat :=
  (units code * 10 ^ (-exponent).toNat, unitsPerOne * 10 ^ exponent.toNat)

def readsBack (code digits : Nat) (exponent : Int) : Bool :=
  Decimal.code digits exponent = code

/-- The neighbour on a grid that reads back; the nearer of two, and the upper one of two that are
equally near. -/
def neighbour? (code : Nat) (exponent : Int) : Option Nat :=
  let (num, den) := inGrid code exponent
  let low := num / den
  match readsBack code low exponent, readsBack code (low + 1) exponent with
  | true, true => some (if 2 * (num % den) < den then low else low + 1)
  | true, false => some low
  | false, true => some (low + 1)
  | false, false => none

/-- The exponent of a power of ten that is above the magnitude with this code. -/
def upperExponent (code : Nat) : Int :=
  (((units code).log2 : Int) - 1073) * 30103 / 100000 + 1

def exactDigits (code : Nat) : Nat :=
  units code * 5 ^ places

/-- The first of `tries` grids, from `exponent` downward, on which a neighbour reads back. -/
def search (code : Nat) : Nat → Int → Nat × Int
  | 0, _ => (exactDigits code, -places)
  | tries + 1, exponent =>
      match neighbour? code exponent with
      | some digits => (digits, exponent)
      | none => search code tries (exponent - 1)

def ofCode (code : Nat) : Nat × Int :=
  search code 22 (upperExponent code)

/-! ## Reading back -/

theorem neighbour?_readsBack {code digits : Nat} {exponent : Int}
    (h : neighbour? code exponent = some digits) : Decimal.code digits exponent = code := by
  simp only [neighbour?] at h
  split at h
  · rename_i hlow hhigh
    simp only [Option.some.injEq] at h
    subst h
    split
    · simpa [readsBack] using hlow
    · simpa [readsBack] using hhigh
  · rename_i hlow _
    simp only [Option.some.injEq] at h
    subst h
    simpa [readsBack] using hlow
  · rename_i _ hhigh
    simp only [Option.some.injEq] at h
    subst h
    simpa [readsBack] using hhigh
  · simp at h

theorem two_pow_le_five_pow (k : Nat) : 2 ^ (2 * k) ≤ 5 ^ k := by
  rw [Nat.pow_mul]
  exact Nat.pow_le_pow_left (by decide) k

theorem five_pow_mul_two_pow (n k : Nat) : n * 5 ^ k * 2 ^ k = n * 10 ^ k := by
  rw [Nat.mul_assoc, ← Nat.mul_pow]

theorem code_exactDigits {code : Nat} (hzero : code ≠ 0) (h : code < infinityCode) :
    Decimal.code (exactDigits code) (-places) = code := by
  have hpos : 0 < units code := units_pos hzero
  have hexact : exactDigits code ≠ 0 :=
    Nat.pos_iff_ne_zero.mp (Nat.mul_pos hpos (Nat.pow_pos (by decide)))
  have hlog : 2 * places ≤ (exactDigits code).log2 := by
    refine (Nat.le_log2 hexact).mpr (Nat.le_trans (two_pow_le_five_pow places) ?_)
    exact Nat.le_mul_of_pos_left _ hpos
  have hplaces : places = 1074 := rfl
  have htens : exactDigits code * unitsPerOne = units code * 10 ^ places :=
    five_pow_mul_two_pow (units code) places
  have hup : (-(places : Int)).toNat = 0 := by omega
  have hdown : (-(-(places : Int))).toNat = places := by omega
  unfold Decimal.code
  rw [if_neg hexact, if_neg (by omega), if_neg (by omega), htens, hup, hdown, Nat.pow_zero,
    Nat.mul_one]
  exact nearestCode_units code (10 ^ places) h (Nat.pow_pos (by decide))

theorem code_search {code : Nat} (hzero : code ≠ 0) (h : code < infinityCode) (tries : Nat)
    (exponent : Int) :
    Decimal.code (search code tries exponent).1 (search code tries exponent).2 = code := by
  induction tries generalizing exponent with
  | zero => exact code_exactDigits hzero h
  | succ tries ih =>
      unfold search
      split
      · rename_i digits hdigits
        exact neighbour?_readsBack hdigits
      · exact ih (exponent - 1)

/-- The digits chosen for a magnitude read back as it. -/
theorem code_ofCode {code : Nat} (hzero : code ≠ 0) (h : code < infinityCode) :
    Decimal.code (ofCode code).1 (ofCode code).2 = code :=
  code_search hzero h 22 (upperExponent code)

end Shortest

namespace Decimal

def ofFloat (x : Float) : Decimal :=
  let (digits, exponent) :=
    if Binary64.code x = 0 then (0, 0) else Shortest.ofCode (Binary64.code x)
  ⟨Binary64.isNegative x, digits, exponent⟩

end Decimal
end MiniLisp
