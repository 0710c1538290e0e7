/-!
# Finite doubles as whole numbers

A finite double is a sign and a magnitude.  The magnitudes are numbered in their order by a
*code*, the bit pattern without the sign, and every one of them is a whole number of *units* of
`2 ^ -1074`, the smallest positive double.  Rounding, reading and printing are then arithmetic on
natural numbers.

## Main statement

* `nearestCode_units`: a magnitude that is a double is its own nearest double.
-/

namespace MiniLisp
namespace Binary64

/-- Powers are those of `Nat`, also where a more general power is in scope. -/
scoped instance (priority := high) natPow : Pow Nat Nat :=
  instPowNat

/-- The code of infinity, one above the code of the greatest finite magnitude. -/
def infinityCode : Nat := 2047 * 2 ^ (52 : Nat)

def places : Nat := 1074

def unitsPerOne : Nat := 2 ^ places

def significand (code : Nat) : Nat :=
  if code < 2 ^ (52 : Nat) then code else code % 2 ^ (52 : Nat) + 2 ^ (52 : Nat)

/-- The number of doublings that lie between a unit and the last place of the significand. -/
def scale (code : Nat) : Nat :=
  code / 2 ^ (52 : Nat) - 1

def units (code : Nat) : Nat :=
  significand code * 2 ^ scale code

/-- The whole number nearest to a quotient; a half goes to the even neighbour. -/
def roundQuotient (num den : Nat) : Nat :=
  let low := num / den
  let twice := 2 * (num % den)
  if twice < den then low
  else if den < twice then low + 1
  else low + low % 2

/-- The code of the double nearest to `num / den` units, a half going to the even significand.
What is too great for a double is infinite. -/
def nearestCode (num den : Nat) : Nat :=
  let s := (num / den).log2 - 52
  min (s * 2 ^ (52 : Nat) + roundQuotient num (den * 2 ^ s)) infinityCode

theorem roundQuotient_mul (n d : Nat) (h : 0 < d) : roundQuotient (n * d) d = n := by
  have hmod : n * d % d = 0 := Nat.mul_mod_left n d
  simp only [roundQuotient, Nat.mul_div_cancel n h, hmod, Nat.mul_zero, if_pos h]

theorem log2_mul_two_pow (m s : Nat) (h : m ≠ 0) : (m * 2 ^ s).log2 = m.log2 + s := by
  induction s with
  | zero => simp
  | succ s ih =>
      have hpos : m * 2 ^ s ≠ 0 := Nat.mul_ne_zero h (Nat.pos_iff_ne_zero.mp (Nat.two_pow_pos s))
      have hmul : m * 2 ^ (s + 1) = 2 * (m * 2 ^ s) := by
        rw [Nat.pow_succ, ← Nat.mul_assoc, Nat.mul_comm]
      rw [hmul, Nat.log2_two_mul hpos, ih, Nat.add_assoc]

theorem units_pos {code : Nat} (h : code ≠ 0) : 0 < units code := by
  refine Nat.mul_pos ?_ (Nat.two_pow_pos _)
  unfold significand
  split <;> omega

/-- A magnitude that is a double is its own nearest double, however the quotient is written. -/
theorem nearestCode_units (code den : Nat) (h : code < infinityCode) (hden : 0 < den) :
    nearestCode (units code * den) den = code := by
  have hround : roundQuotient (units code * den) (den * 2 ^ scale code) = significand code := by
    rw [units, Nat.mul_assoc, Nat.mul_comm (2 ^ scale code) den]
    exact roundQuotient_mul _ _ (Nat.mul_pos hden (Nat.two_pow_pos _))
  have hs : (units code * den / den).log2 - 52 = scale code := by
    rw [Nat.mul_div_cancel _ hden]
    by_cases hsmall : code < 2 ^ 52
    · have hscale : scale code = 0 := by
        rw [scale, Nat.div_eq_of_lt hsmall]
      have hunits : units code = code := by
        rw [units, hscale, significand, if_pos hsmall, Nat.pow_zero, Nat.mul_one]
      rw [hunits, hscale]
      by_cases hzero : code = 0
      · subst hzero
        decide
      · have := (Nat.log2_lt hzero).mpr hsmall
        omega
    · have hsig : significand code = code % 2 ^ 52 + 2 ^ 52 := by
        rw [significand, if_neg hsmall]
      have hmod : code % 2 ^ 52 < 2 ^ 52 := Nat.mod_lt _ (by decide)
      have hpos : significand code ≠ 0 := by omega
      have hlow : 52 ≤ (significand code).log2 := (Nat.le_log2 hpos).mpr (by omega)
      have hhigh : (significand code).log2 < 53 := (Nat.log2_lt hpos).mpr (by omega)
      rw [units, log2_mul_two_pow _ _ hpos]
      omega
  simp only [nearestCode, hs, hround]
  have hdiv : code = code / 2 ^ 52 * 2 ^ 52 + code % 2 ^ 52 := by
    rw [Nat.mul_comm]
    exact (Nat.div_add_mod code (2 ^ 52)).symm
  unfold significand scale
  simp only [infinityCode] at h ⊢
  split
  · rename_i hsmall
    rw [Nat.div_eq_of_lt hsmall]
    omega
  · have hone : 1 ≤ code / 2 ^ 52 := (Nat.le_div_iff_mul_le (by decide)).mpr (by omega)
    omega

/-! ## The double itself -/

def isNegative (x : Float) : Bool :=
  2 ^ (63 : Nat) ≤ x.toBits.toNat

def code (x : Float) : Nat :=
  x.toBits.toNat % 2 ^ (63 : Nat)

def ofCode (negative : Bool) (code : Nat) : Float :=
  Float.ofBits (UInt64.ofNat ((if negative then 2 ^ (63 : Nat) else 0) + code))

end Binary64
end MiniLisp
