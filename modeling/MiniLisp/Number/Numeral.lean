import MiniLisp.Number.Shortest

/-!
# The texts of numbers

Numbers are doubles.  A number is written with the fewest digits that read back, never with an
exponent and never with a fraction that is zero.  Reading also accepts exponents and, where a host
gives a number, the words for infinity and for what is not a number.
-/

namespace MiniLisp
namespace Number

open scoped Binary64

def text (x : Float) : List Char :=
  if x.isNaN then
    ['N', 'a', 'N']
  else
    let sign := if Binary64.isNegative x then ['-'] else []
    if x.isInf then
      sign ++ ['i', 'n', 'f']
    else
      let d := Decimal.ofFloat x
      sign ++ Decimal.positional d.digits d.exponent

def ofNumeral? (text : List Char) : Option Float :=
  (Decimal.ofText? text).map Decimal.toFloat

/-- The number that a word stands for, whatever the case of its letters. -/
def ofWord? (negative : Bool) (word : List Char) : Option Float :=
  let lower := word.map Char.toLower
  if lower = ['i', 'n', 'f'] ∨ lower = ['i', 'n', 'f', 'i', 'n', 'i', 't', 'y'] then
    some (Binary64.ofCode negative Binary64.infinityCode)
  else if lower = ['n', 'a', 'n'] then
    some (Binary64.ofCode negative (Binary64.infinityCode + 2 ^ (51 : Nat)))
  else
    none

def ofText? (text : List Char) : Option Float :=
  match ofNumeral? text with
  | some x => some x
  | none =>
      let (negative, word) := Decimal.takeSign text
      ofWord? negative word

/-- The number that a token stands for: it must hold a digit, which no word does. -/
def ofToken? (token : List Char) : Option Float :=
  if token.any Char.isDigit then ofText? token else none

end Number
end MiniLisp
