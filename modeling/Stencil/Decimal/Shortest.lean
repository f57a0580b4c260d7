set_option autoImplicit false

/-!
# The shortest decimal that reads back

A binary number `mantissa · 2 ^ exponent` stands for all reals that round to it. Of the decimals
in that interval `shortest` takes one with the fewest digits, and of those the nearest; of two
equally near ones the larger.
-/
namespace Stencil.Decimal

def twoTo (n : Nat) : Nat := Nat.pow 2 n

def tenTo (n : Nat) : Nat := Nat.pow 10 n

def digitCount (n : Nat) : Nat := (Nat.toDigits 10 n).length

/-- The reals between `low / unit` and `high / unit`, around `value / unit`. -/
structure Interval where
  low : Nat
  value : Nat
  high : Nat
  unit : Nat
  /-- Whether the two ends belong to the interval. -/
  closed : Bool

/-- Half the distance to the neighbours on both sides. The lower neighbour of a power of two is
nearer, unless it is the least normal number. -/
def Interval.around (mantissa : Nat) (exponent : Int) : Interval :=
  let gap := if mantissa = twoTo 52 ∧ -1074 < exponent then 1 else 2
  let up := twoTo (exponent - 2).toNat
  ⟨(4 * mantissa - gap) * up, 4 * mantissa * up, (4 * mantissa + 2) * up,
    twoTo (2 - exponent).toNat, mantissa % 2 = 0⟩

def Interval.inSteps (i : Interval) (step : Int) : Interval :=
  let up := tenTo (-step).toNat
  { i with
    low := i.low * up, value := i.value * up, high := i.high * up
    unit := i.unit * tenTo step.toNat }

def Interval.holds (i : Interval) (n : Nat) : Bool :=
  if i.closed then decide (i.low ≤ n * i.unit) && decide (n * i.unit ≤ i.high)
  else decide (i.low < n * i.unit) && decide (n * i.unit < i.high)

def Interval.whole? (i : Interval) : Option Nat :=
  let below := i.value / i.unit
  let above := below + 1
  match i.holds below, i.holds above with
  | true, true => some (if 2 * i.value < (below + above) * i.unit then below else above)
  | true, false => some below
  | false, true => some above
  | false, false => none

def Interval.point (i : Interval) : Int :=
  let p : Int := digitCount i.value - digitCount i.unit
  if i.value * tenTo (-p).toNat < i.unit * tenTo p.toNat then p else p + 1

/-- A positive decimal: the digits after a leading zero and point, moved by a power of ten. -/
structure Numeral where
  digits : List Char
  point : Int
  deriving Repr, DecidableEq

def dropTrailingZeros (digits : List Char) : List Char :=
  (digits.reverse.dropWhile (· = '0')).reverse

def Numeral.ofSteps (n : Nat) (step : Int) : Numeral :=
  ⟨dropTrailingZeros (Nat.toDigits 10 n), step + digitCount n⟩

def shortest (mantissa : Nat) (exponent : Int) : Numeral :=
  let i := Interval.around mantissa exponent
  let attempt (digits : Nat) : Option Numeral :=
    let step := i.point - digits
    (i.inSteps step).whole?.map (Numeral.ofSteps · step)
  let exact := Numeral.ofSteps
    (mantissa * twoTo exponent.toNat * Nat.pow 5 (-exponent).toNat) (min exponent 0)
  ((List.range' 1 17).findSome? attempt).getD exact

def zeros (n : Nat) : List Char := List.replicate n '0'

def Numeral.positional (d : Numeral) : List Char :=
  if d.point ≤ 0 then '0' :: '.' :: zeros (-d.point).toNat ++ d.digits
  else
    let whole := d.point.toNat
    if d.digits.length ≤ whole then d.digits ++ zeros (whole - d.digits.length)
    else d.digits.take whole ++ '.' :: d.digits.drop whole

def Numeral.scientific (d : Numeral) : List Char :=
  let exponent := d.point - 1
  let mantissa := match d.digits with
    | first :: second :: rest => first :: '.' :: second :: rest
    | short => short
  mantissa ++ 'e' :: (if exponent < 0 then '-' else '+') :: Nat.toDigits 10 exponent.natAbs

example : shortest 1 (-1074) = ⟨['5'], -323⟩ := by decide +kernel

example : (shortest 3602879701896397 (-55)).positional = ['0', '.', '1'] := by decide +kernel

end Stencil.Decimal
