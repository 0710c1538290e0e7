import MiniLisp.Number.Binary64

/-!
# Decimal numerals

A decimal is a whole number times a power of ten.  This module reads the decimal grammar, rounds
a decimal to the nearest double and lays a decimal out without an exponent.

The grammar is: an optional sign, digits with at most one point among them and at least one digit
in all, and an optional exponent, which is `e` or `E`, an optional sign and at least one digit.
-/

namespace MiniLisp

/-- The number `digits * 10 ^ exponent`, with a sign that zero has too. -/
structure Decimal where
  negative : Bool
  digits : Nat
  exponent : Int
  deriving DecidableEq, Repr

namespace Decimal

open scoped Binary64

/-! ## Reading -/

/-- Takes an optional sign off; true means minus. -/
def takeSign : List Char → Bool × List Char
  | '-' :: rest => (true, rest)
  | '+' :: rest => (false, rest)
  | rest => (false, rest)

/-- The exponent that a tail such as `e-7` stands for; no tail is the exponent zero. -/
def exponentOf? : List Char → Option Int
  | [] => some 0
  | c :: rest =>
      let (negative, digits) := takeSign rest
      if (c = 'e' ∨ c = 'E') ∧ digits ≠ [] ∧ digits.all Char.isDigit then
        let size : Int := Nat.ofDigitChars 10 digits 0
        some (if negative then -size else size)
      else
        none

def takeFraction : List Char → List Char × List Char
  | '.' :: rest => (rest.takeWhile Char.isDigit, rest.dropWhile Char.isDigit)
  | rest => ([], rest)

def ofUnsigned? (negative : Bool) (body : List Char) : Option Decimal :=
  let whole := body.takeWhile Char.isDigit
  let (fraction, tail) := takeFraction (body.dropWhile Char.isDigit)
  if whole ++ fraction = [] then
    none
  else
    (exponentOf? tail).map fun e =>
      ⟨negative, Nat.ofDigitChars 10 (whole ++ fraction) 0, e - fraction.length⟩

def ofText? (text : List Char) : Option Decimal :=
  let (negative, body) := takeSign text
  ofUnsigned? negative body

/-! ## Rounding -/

/-- The code of the double nearest to `digits * 10 ^ exponent`.  Exponents out of reach are
settled by size alone, so that no huge power of ten is computed. -/
def code (digits : Nat) (exponent : Int) : Nat :=
  if digits = 0 then
    0
  else if 400 < exponent then
    Binary64.infinityCode
  else if (digits.log2 : Int) + 3 * exponent < -1080 then
    0
  else
    Binary64.nearestCode (digits * Binary64.unitsPerOne * 10 ^ exponent.toNat)
      (10 ^ (-exponent).toNat)

def toFloat (d : Decimal) : Float :=
  Binary64.ofCode d.negative (code d.digits d.exponent)

/-! ## Layout -/

/-- The digits of `digits * 10 ^ exponent` written out, with a point if the exponent is negative. -/
def positional (digits : Nat) (exponent : Int) : List Char :=
  let shown := Nat.toDigits 10 digits
  let places := (-exponent).toNat
  if places = 0 then
    shown ++ List.replicate exponent.toNat '0'
  else
    let padded := List.replicate (places + 1 - shown.length) '0' ++ shown
    padded.take (padded.length - places) ++ '.' :: padded.drop (padded.length - places)

end Decimal
end MiniLisp
