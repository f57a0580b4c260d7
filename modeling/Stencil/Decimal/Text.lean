import Stencil.Decimal.Shortest

set_option autoImplicit false

/-!
# The text of a number

Whole numbers are written exactly and others with the fewest digits, positionally from `1e-6` up
to `1e21` and with a power of ten beyond. Both zeros are `0`.
-/
namespace Stencil.Decimal
open Float.Model

def positiveText (mantissa : Nat) (exponent : Int) : List Char :=
  let d := shortest mantissa exponent
  let whole := mantissa * twoTo exponent.toNat
  let parts := twoTo (-exponent).toNat
  if d.point < -5 ∨ 21 < d.point then d.scientific
  else if whole % parts = 0 then Nat.toDigits 10 (whole / parts)
  else d.positional

def unpackedText : UnpackedFloat → String
  | .notANumber => "NaN"
  | .infinity .positive => "Infinity"
  | .infinity .negative => "-Infinity"
  | .zero _ => "0"
  | .finite .positive mantissa exponent _ => String.ofList (positiveText mantissa exponent)
  | .finite .negative mantissa exponent _ => String.ofList ('-' :: positiveText mantissa exponent)

def numberText (x : Float) : String := unpackedText x.toModel.unpack

/-- The nearest number to `digits / 10 ^ places`, less the sign. -/
def read (negative : Bool) (digits places : Nat) : Float :=
  let x := Float.ofScientific digits true places
  if negative then -x else x

end Stencil.Decimal
