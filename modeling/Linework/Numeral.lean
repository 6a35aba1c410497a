/-! Numbers as they are read and written.

A number of single precision is written with the fewest digits that read back as the same number,
and of those the closest; of two equally close the larger. The notation is positional, however large
or small the number is.
-/

set_option autoImplicit false

namespace Linework.Numeral

def value (base : Nat) (digits : List Nat) : Nat := digits.foldl (fun n d => base * n + d) 0

def digit? (c : Char) : Option Nat :=
  if c.isDigit then some (c.toNat - '0'.toNat)
  else if 'a' ≤ c ∧ c ≤ 'f' then some (c.toNat - 'a'.toNat + 10)
  else if 'A' ≤ c ∧ c ≤ 'F' then some (c.toNat - 'A'.toNat + 10)
  else none

def ofChars (base : Nat) (cs : List Char) : Nat := value base (cs.filterMap digit?)

/-- The double nearest to a whole number times a power of ten. Beyond the reach of doubles the power
need not be computed. -/
def double (minus : Bool) (digits : Nat) (exponent : Int) : Float :=
  let places : Int := (Nat.toDigits 10 digits).length
  let magnitude : Float :=
    if digits = 0 ∨ exponent + places < -400 then 0
    else if exponent + places > 400 then 1 / 0
    else Float.ofScientific digits (exponent < 0) exponent.natAbs
  if minus then -magnitude else magnitude

end Linework.Numeral

namespace Linework

structure Decimal where
  digits : Nat
  exponent : Int
  deriving DecidableEq, Repr

namespace Decimal

/-- The reals that read back as one number: those between `lower` and `upper` around `value`, all
three over a common denominator. -/
structure Interval where
  lower : Nat
  value : Nat
  upper : Nat
  denominator : Nat
  closed : Bool

def Interval.nearest? (i : Interval) (exponent : Int) : Option Decimal :=
  let unit := if exponent < 0 then i.denominator else i.denominator * Nat.pow 10 exponent.toNat
  let scale := if exponent < 0 then Nat.pow 10 exponent.natAbs else 1
  let below := i.value * scale / unit
  let down := if i.closed then i.lower * scale ≤ below * unit else i.lower * scale < below * unit
  let up := if i.closed then (below + 1) * unit ≤ i.upper * scale
    else (below + 1) * unit < i.upper * scale
  let upIsCloser := unit ≤ 2 * (i.value * scale - below * unit)
  if up ∧ (¬ down ∨ upIsCloser) then some ⟨below + 1, exponent⟩
  else if down then some ⟨below, exponent⟩
  else none

/-- The powers of ten that the digits of a single precision number can begin with or end in. -/
def exponents : List Int := (List.range 100).map fun (i : Nat) => 39 - (i : Int)

def shortest? (i : Interval) : Option Decimal := exponents.findSome? i.nearest?

/-- The reals around the positive number `mantissa` times two to the power of `exponent`. Where the
mantissa is the least of its binade, the next number below is half as far away. -/
def interval (mantissa : Nat) (exponent : Int) (leastOfBinade : Bool) : Interval :=
  let scale := if exponent < 2 then 1 else 1 <<< (exponent - 2).toNat
  { lower := (4 * mantissa - if leastOfBinade then 1 else 2) * scale
    value := 4 * mantissa * scale
    upper := (4 * mantissa + 2) * scale
    denominator := if exponent < 2 then 1 <<< (2 - exponent).toNat else 1
    closed := mantissa % 2 == 0 }

def text (d : Decimal) : String :=
  let digits := Nat.toDigits 10 d.digits
  if d.exponent < 0 then
    let places := d.exponent.natAbs
    let padded := List.replicate (places + 1 - digits.length) '0' ++ digits
    let whole := padded.take (padded.length - places)
    let fraction := (padded.drop (padded.length - places)).reverse.dropWhile (· == '0')
    String.ofList (if fraction.isEmpty then whole else whole ++ '.' :: fraction.reverse)
  else String.ofList (digits ++ List.replicate d.exponent.toNat '0')

def textOfBits (bits : UInt32) : String :=
  let sign := if bits >>> 31 = 1 then "-" else ""
  let biased : Nat := (bits >>> 23 &&& 0xff).toNat
  let fraction : Nat := (bits &&& 0x7fffff).toNat
  if biased = 255 then
    if fraction = 0 then sign ++ "inf" else "NaN"
  else if biased = 0 ∧ fraction = 0 then sign ++ "0"
  else
    let i := if biased = 0 then interval fraction (-149) false
      else interval (0x800000 + fraction) ((biased : Int) - 150) (fraction == 0 && biased > 1)
    sign ++ ((shortest? i).map text).getD ""

end Decimal

def decimalText (x : Float32) : String := Decimal.textOfBits x.toBits

end Linework
