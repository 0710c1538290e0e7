import Mathlib
import MiniLisp.Number.Numeral

/-!
# Numbers read back

The written form of a finite number is a numeral, and the numeral stands for that number again.
The digits were chosen so that they do (`Shortest.code_ofCode`); what is left is the layout: signs,
padding zeros and the point.

## Main statements

* `Number.ofToken?_text`: the text of a finite number stands for the same number.
* `Number.ofToken?_text_of_not_isFinite`: the text of any other number stands for no number.
-/

namespace MiniLisp
namespace Decimal

/-!
## Layout

A decimal is laid out as digits alone or as digits around a point.
-/

def AreDigits (text : List Char) : Prop :=
  ∀ c ∈ text, c.isDigit = true

theorem areDigits_zeros (n : Nat) : AreDigits (List.replicate n '0') := by
  intro c hc
  rw [List.eq_of_mem_replicate hc]
  decide

theorem areDigits_toDigits (n : Nat) : AreDigits (Nat.toDigits 10 n) := by
  intro c hc
  exact Nat.isDigit_of_mem_toDigits (by decide) (by decide) hc

theorem AreDigits.append {front back : List Char} (hfront : AreDigits front)
    (hback : AreDigits back) : AreDigits (front ++ back) := by
  intro c hc
  cases List.mem_append.mp hc with
  | inl hc => exact hfront c hc
  | inr hc => exact hback c hc

theorem positional_whole (digits : Nat) {exponent : Int} (h : 0 ≤ exponent) :
    AreDigits (positional digits exponent) ∧ positional digits exponent ≠ [] ∧
      Nat.ofDigitChars 10 (positional digits exponent) 0 = digits * 10 ^ exponent.toNat := by
  have hplaces : (-exponent).toNat = 0 := by omega
  have hlayout : positional digits exponent =
      Nat.toDigits 10 digits ++ List.replicate exponent.toNat '0' := by
    simp [positional, hplaces]
  rw [hlayout]
  constructor
  · exact (areDigits_toDigits digits).append (areDigits_zeros exponent.toNat)
  constructor
  · exact List.append_ne_nil_of_left_ne_nil Nat.toDigits_ne_nil _
  · rw [Nat.ofDigitChars_append, Nat.ofDigitChars_ten_toDigits, Nat.ofDigitChars_replicate_zero,
      Nat.mul_comm]

theorem positional_point (digits : Nat) {exponent : Int} (h : exponent < 0) :
    ∃ whole fraction : List Char,
      positional digits exponent = whole ++ '.' :: fraction ∧
        AreDigits whole ∧ AreDigits fraction ∧ whole ≠ [] ∧
        (fraction.length : Int) = -exponent ∧
        Nat.ofDigitChars 10 (whole ++ fraction) 0 = digits := by
  have hplaces : (-exponent).toNat ≠ 0 := by omega
  generalize hp : (-exponent).toNat = places at hplaces
  generalize hz : places + 1 - (Nat.toDigits 10 digits).length = zeros
  generalize hs : List.replicate zeros '0' ++ Nat.toDigits 10 digits = padded
  have hlength : places < padded.length := by
    rw [← hs, List.length_append, List.length_replicate]
    omega
  have hdigits : AreDigits padded := by
    rw [← hs]
    exact (areDigits_zeros zeros).append (areDigits_toDigits digits)
  refine ⟨padded.take (padded.length - places), padded.drop (padded.length - places), ?_, ?_, ?_,
    ?_, ?_, ?_⟩
  · simp [positional, hp, hplaces, hz, hs]
  · intro c hc
    exact hdigits c (List.mem_of_mem_take hc)
  · intro c hc
    exact hdigits c (List.mem_of_mem_drop hc)
  · apply List.ne_nil_of_length_pos
    rw [List.length_take]
    omega
  · rw [List.length_drop]
    omega
  · rw [List.take_append_drop, ← hs, Nat.ofDigitChars_append, Nat.ofDigitChars_replicate_zero,
      Nat.mul_zero, Nat.ofDigitChars_ten_toDigits]

theorem mem_positional {digits : Nat} {exponent : Int} {c : Char}
    (hc : c ∈ positional digits exponent) : c.isDigit = true ∨ c = '.' := by
  by_cases h : 0 ≤ exponent
  · exact Or.inl ((positional_whole digits h).1 c hc)
  · rcases positional_point digits (Int.not_le.mp h) with
      ⟨whole, fraction, heq, hwhole, hfraction, _⟩
    rw [heq] at hc
    rcases List.mem_append.mp hc with hc | hc
    · exact Or.inl (hwhole c hc)
    · rcases List.mem_cons.mp hc with hc | hc
      · exact Or.inr hc
      · exact Or.inl (hfraction c hc)

theorem positional_any_isDigit (digits : Nat) (exponent : Int) :
    (positional digits exponent).any Char.isDigit = true := by
  rw [List.any_eq_true]
  by_cases h : 0 ≤ exponent
  · rcases positional_whole digits h with ⟨hdigits, hne, _⟩
    rcases List.exists_mem_of_ne_nil _ hne with ⟨c, hc⟩
    exact ⟨c, hc, hdigits c hc⟩
  · rcases positional_point digits (Int.not_le.mp h) with ⟨whole, fraction, heq, hwhole, _, hne, _⟩
    rcases List.exists_mem_of_ne_nil _ hne with ⟨c, hc⟩
    exact ⟨c, heq ▸ List.mem_append_left _ hc, hwhole c hc⟩

/-!
## Reading a layout
-/

theorem ofUnsigned?_whole (negative : Bool) {whole : List Char} (hdigits : AreDigits whole)
    (hne : whole ≠ []) :
    ofUnsigned? negative whole = some ⟨negative, Nat.ofDigitChars 10 whole 0, 0⟩ := by
  have htake : whole.takeWhile Char.isDigit = whole := List.takeWhile_eq_self_iff.mpr hdigits
  have hdrop : whole.dropWhile Char.isDigit = [] := List.dropWhile_eq_nil_iff.mpr hdigits
  simp [ofUnsigned?, htake, hdrop, takeFraction, exponentOf?, hne]

theorem ofUnsigned?_point (negative : Bool) {whole fraction : List Char}
    (hwhole : AreDigits whole) (hfraction : AreDigits fraction) (hne : whole ≠ []) :
    ofUnsigned? negative (whole ++ '.' :: fraction) =
      some ⟨negative, Nat.ofDigitChars 10 (whole ++ fraction) 0, -fraction.length⟩ := by
  have htake : (whole ++ '.' :: fraction).takeWhile Char.isDigit = whole := by
    rw [List.takeWhile_append_of_pos hwhole]
    simp
  have hdrop : (whole ++ '.' :: fraction).dropWhile Char.isDigit = '.' :: fraction := by
    rw [List.dropWhile_append_of_pos hwhole]
    simp
  have htail : takeFraction ('.' :: fraction) = (fraction, []) := by
    simp [takeFraction, List.takeWhile_eq_self_iff.mpr hfraction,
      List.dropWhile_eq_nil_iff.mpr hfraction]
  simp [ofUnsigned?, htake, hdrop, htail, exponentOf?, hne]

theorem code_mul_pow (digits : Nat) {exponent : Int} (h : 0 ≤ exponent) (hle : exponent ≤ 400) :
    code (digits * 10 ^ exponent.toNat) 0 = code digits exponent := by
  by_cases hzero : digits = 0
  · subst hzero
    simp [code]
  · have hmul : digits * 10 ^ exponent.toNat ≠ 0 :=
      Nat.mul_ne_zero hzero (Nat.pos_iff_ne_zero.mp (Nat.pow_pos (by decide)))
    have hnegative : (-exponent).toNat = 0 := by omega
    unfold code
    rw [if_neg hmul, if_neg hzero, if_neg (by omega), if_neg (by omega), if_neg (by omega),
      if_neg (by omega), hnegative]
    simp only [Int.toNat_zero, Int.neg_zero, Nat.pow_zero, Nat.mul_one]
    rw [Nat.mul_assoc, Nat.mul_comm (10 ^ exponent.toNat), ← Nat.mul_assoc]

theorem exponent_le_of_code_lt {digits : Nat} {exponent : Int}
    (h : code digits exponent < Binary64.infinityCode) (hzero : digits ≠ 0) : exponent ≤ 400 := by
  by_contra hgt
  rw [code, if_neg hzero, if_pos (by omega)] at h
  exact Nat.lt_irrefl _ h

theorem ofUnsigned?_positional (negative : Bool) {digits : Nat} {exponent : Int}
    (h : code digits exponent < Binary64.infinityCode) (hzero : digits = 0 → exponent = 0) :
    ∃ d : Decimal,
      ofUnsigned? negative (positional digits exponent) = some d ∧
        d.negative = negative ∧ code d.digits d.exponent = code digits exponent := by
  by_cases hsign : 0 ≤ exponent
  · rcases positional_whole digits hsign with ⟨hdigits, hne, hvalue⟩
    have hle : exponent ≤ 400 := by
      by_cases hd : digits = 0
      · rw [hzero hd]
        decide
      · exact exponent_le_of_code_lt h hd
    refine ⟨_, ofUnsigned?_whole negative hdigits hne, rfl, ?_⟩
    rw [hvalue]
    exact code_mul_pow digits hsign hle
  · rcases positional_point digits (Int.not_le.mp hsign) with
      ⟨whole, fraction, heq, hwhole, hfraction, hne, hlength, hvalue⟩
    rw [heq]
    refine ⟨_, ofUnsigned?_point negative hwhole hfraction hne, rfl, ?_⟩
    rw [hvalue, hlength, Int.neg_neg]

end Decimal

namespace Binary64

theorem ofCode_code (x : Float) : ofCode (isNegative x) (code x) = x := by
  have hbits : (if isNegative x then 2 ^ 63 else 0) + code x = x.toBits.toNat := by
    have hlt := x.toBits.toNat_lt
    unfold isNegative code
    by_cases h : 2 ^ 63 ≤ x.toBits.toNat
    · simp only [h, decide_true, if_true]
      omega
    · simp only [h, decide_false, Bool.false_eq_true, if_false]
      omega
  rw [ofCode, hbits, UInt64.ofNat_toNat, Float.ofBits_toBits]

theorem isFinite_iff_exponent_ne (x : Float) :
    x.isFinite = true ↔ x.toBits.toNat / 2 ^ 52 % 2 ^ 11 ≠ 2047 := by
  have hexponent : (@Float.Model.UnpackedFloat.unpackExponent Float.Model.Format.binary64
      x.toBits.toBitVec).toNat = x.toBits.toNat / 2 ^ 52 % 2 ^ 11 := by
    rw [Float.Model.UnpackedFloat.unpackExponent_def, BitVec.extractLsb'_toNat,
      Nat.shiftRight_eq_div_pow]
    rfl
  rw [← hexponent]
  show (Float.Model.UnpackedFloat.unpack Float.Model.Format.binary64
    x.toBits.toBitVec).isFinite = true ↔ _
  simp only [Float.Model.UnpackedFloat.unpack]
  split
  · rename_i hall
    rw [hall]
    constructor
    · intro h
      split at h <;> cases h
    · intro h
      exact absurd (by decide) h
  · rename_i hsome
    constructor
    · intro _ h
      apply hsome
      apply BitVec.eq_of_toNat_eq
      rw [h]
      decide
    · intro _
      split
      · split <;> rfl
      · rfl

theorem code_lt_of_isFinite {x : Float} (h : x.isFinite = true) : code x < infinityCode := by
  have hexponent := (isFinite_iff_exponent_ne x).mp h
  unfold code infinityCode
  omega

end Binary64

namespace Number

theorem isFinite_eq (x : Float) : x.isFinite = !(x.isNaN || x.isInf) := by
  show x.toModel.unpack.isFinite = !(x.toModel.unpack.isNaN || x.toModel.unpack.isInf)
  cases x.toModel.unpack <;> rfl

theorem beq_self_of_isFinite {x : Float} (h : x.isFinite = true) : (x == x) = true := by
  rw [isFinite_eq, Bool.not_eq_true', Bool.or_eq_false_iff] at h
  rw [Float.beq_self_iff]
  simpa using h.1

/-!
## The text of a number
-/

theorem text_of_isFinite {x : Float} (h : x.isFinite = true) :
    text x = (if Binary64.isNegative x then ['-'] else []) ++
      Decimal.positional (Decimal.ofFloat x).digits (Decimal.ofFloat x).exponent := by
  rw [isFinite_eq, Bool.not_eq_true', Bool.or_eq_false_iff] at h
  rw [text, h.1, h.2]
  simp only [Bool.false_eq_true, if_false]

theorem code_ofFloat {x : Float} (h : x.isFinite = true) :
    Decimal.code (Decimal.ofFloat x).digits (Decimal.ofFloat x).exponent = Binary64.code x := by
  unfold Decimal.ofFloat
  by_cases hzero : Binary64.code x = 0
  · simp [hzero, Decimal.code]
  · simp only [hzero, if_false]
    exact Shortest.code_ofCode hzero (Binary64.code_lt_of_isFinite h)

theorem exponent_ofFloat_of_digits_eq_zero {x : Float} (h : x.isFinite = true)
    (hdigits : (Decimal.ofFloat x).digits = 0) : (Decimal.ofFloat x).exponent = 0 := by
  by_cases hzero : Binary64.code x = 0
  · simp [Decimal.ofFloat, hzero]
  · have hcode := code_ofFloat h
    rw [hdigits] at hcode
    exact absurd hcode.symm hzero

theorem takeSign_of_not_mem {text : List Char} (hminus : '-' ∉ text) (hplus : '+' ∉ text) :
    Decimal.takeSign text = (false, text) := by
  unfold Decimal.takeSign
  split
  · exact absurd (List.mem_cons_self ..) hminus
  · exact absurd (List.mem_cons_self ..) hplus
  · rfl

theorem ofText?_signed (negative : Bool) (digits : Nat) (exponent : Int) :
    Decimal.ofText? ((if negative then ['-'] else []) ++ Decimal.positional digits exponent) =
      Decimal.ofUnsigned? negative (Decimal.positional digits exponent) := by
  cases negative with
  | true => rfl
  | false =>
      have hsign : ∀ c ∈ Decimal.positional digits exponent, c ≠ '-' ∧ c ≠ '+' := by
        intro c hc
        rcases Decimal.mem_positional hc with hdigit | rfl
        · constructor <;> (rintro rfl; revert hdigit; decide)
        · decide
      have htake := takeSign_of_not_mem (fun h => (hsign _ h).1 rfl) (fun h => (hsign _ h).2 rfl)
      simp only [Bool.false_eq_true, if_false, List.nil_append]
      rw [Decimal.ofText?, htake]

/-- The text of a finite number stands for the same number. -/
theorem ofToken?_text {x : Float} (h : x.isFinite = true) : ofToken? (text x) = some x := by
  have hcode := code_ofFloat h
  have hlt : Decimal.code (Decimal.ofFloat x).digits (Decimal.ofFloat x).exponent <
      Binary64.infinityCode := by
    rw [hcode]
    exact Binary64.code_lt_of_isFinite h
  rcases Decimal.ofUnsigned?_positional (Binary64.isNegative x) hlt
    (exponent_ofFloat_of_digits_eq_zero h) with ⟨d, hread, hnegative, hsame⟩
  have hdigit : (text x).any Char.isDigit = true := by
    rw [text_of_isFinite h, List.any_append, Decimal.positional_any_isDigit, Bool.or_true]
  have hnumeral : ofNumeral? (text x) = some x := by
    rw [ofNumeral?, text_of_isFinite h, ofText?_signed, hread, Option.map_some,
      Decimal.toFloat, hnegative, hsame, hcode, Binary64.ofCode_code]
  simp only [ofToken?, hdigit, if_true, ofText?, hnumeral]

theorem text_of_not_isFinite {x : Float} (h : x.isFinite = false) :
    text x = ['N', 'a', 'N'] ∨ text x = ['i', 'n', 'f'] ∨ text x = ['-', 'i', 'n', 'f'] := by
  rw [isFinite_eq, Bool.not_eq_false', Bool.or_eq_true] at h
  unfold text
  by_cases hnan : x.isNaN = true
  · exact Or.inl (if_pos hnan)
  · rw [if_neg hnan, if_pos (h.resolve_left hnan)]
    cases Binary64.isNegative x with
    | false => exact Or.inr (Or.inl rfl)
    | true => exact Or.inr (Or.inr rfl)

/-- The text of a number that is not finite stands for no number. -/
theorem ofToken?_text_of_not_isFinite {x : Float} (h : x.isFinite = false) :
    ofToken? (text x) = none := by
  rcases text_of_not_isFinite h with htext | htext | htext <;> rw [htext] <;> rfl

end Number
end MiniLisp
