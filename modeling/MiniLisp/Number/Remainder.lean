import MiniLisp.Number.Binary64

/-!
# The remainder of doubles

The remainder of `x` by `y` is `x - n * y` for the whole number `n` nearest to `x / y` on the side
of zero.  It is a double exactly, so it is computed on whole numbers of units and never rounded.
Its sign is the sign of `x`.
-/

namespace MiniLisp
namespace Number

/-- The exact remainder, with the sign of the dividend. -/
def remainder (x y : Float) : Float :=
  if x.isNaN || y.isNaN || x.isInf || Binary64.code y = 0 then
    0.0 / 0.0
  else if y.isInf then
    x
  else
    let left := Binary64.units (Binary64.code x) % Binary64.units (Binary64.code y)
    Binary64.ofCode (Binary64.isNegative x) (Binary64.nearestCode left 1)

end Number
end MiniLisp
