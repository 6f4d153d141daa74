import SqlLowering.Number.Notation
import SqlLowering.Text.Digits

/-!
# Numbers of a JSON text

A number is kept as it is spelled, because the spelling decides what it may be read as: `1` is an
integer, `1.0` and `1e0` are not, and neither is `-0`.
-/

namespace SqlLowering.Json

open Number

/-- A number by its spelling: the digits before the point, those after it, and the exponent with its
sign. There is no point without digits after it. -/
structure Numeral where
  negative : Bool
  whole : List Char
  fraction : List Char := []
  exponent : Option (Bool × List Char) := none
deriving DecidableEq, Repr

namespace Numeral

/-- The characters of a number. -/
def chars (n : Numeral) : List Char :=
  let sign := if n.negative then ['-'] else []
  let point := if n.fraction = [] then [] else '.' :: n.fraction
  let power := match n.exponent with
    | some (negative, ds) => 'e' :: (if negative then '-' :: ds else ds)
    | none => []
  sign ++ n.whole ++ point ++ power

/-- The spelling of an integer. -/
def ofInt (i : Int) : Numeral :=
  { negative := i < 0, whole := Text.digits i.natAbs }

/-- The integer of a spelling without point and exponent. Integers have the range of signed and of
unsigned words of 64 bits together; outside of it, and for `-0`, a number is approximate. -/
def toInt? (n : Numeral) : Option Int :=
  let size := Text.ofDigits n.whole
  if n.fraction ≠ [] ∨ n.exponent.isSome then none
  else if n.negative then
    if 0 < size ∧ size ≤ 9223372036854775808 then some (-(size : Int)) else none
  else
    if size < UInt64.size then some size else none

/-- Extend a number of 64 bits by digits as long as it stays one: the number, and how many digits
were taken. -/
def extend (size taken : Nat) : List Char → Nat × Nat
  | [] => (size, taken)
  | d :: ds =>
    let grown := size * 10 + Text.ofDigits [d]
    if grown < UInt64.size then extend grown (taken + 1) ds else (size, taken)

/-- A power of ten as a double, correctly rounded. -/
def powerOfTen (n : Nat) : Float :=
  Float.ofScientific 1 false n

/-- Scale by a negative power of ten, in steps when it is beyond the range of a double. -/
def scaleDown (x : Float) (places : Nat) : Float :=
  if places ≤ 308 then x / powerOfTen places
  else if x == 0 then x
  else scaleDown (x / powerOfTen 308) (places - 308)
termination_by places
decreasing_by omega

/-- Scale by a power of ten, if the result is finite. -/
def scale? (x : Float) (power : Int) : Option Float :=
  if power < 0 then some (scaleDown x power.natAbs)
  else if power ≤ 308 then
    let y := x * powerOfTen power.toNat
    if y.isInf then none else some y
  else if x == 0 then some x
  else none

/-- The magnitude as a double: the leading digits as a number of 64 bits, scaled by a power of ten.
Fraction digits beyond those 64 bits are dropped. -/
def magnitude? (n : Numeral) : Option Float := do
  let (size, taken) := extend 0 0 n.whole
  let (size, fraction) := extend size 0 n.fraction
  let dropped := n.whole.length - taken
  let base := size.toUInt64.toFloat
  let start : Int := dropped - fraction
  match n.exponent with
  | none => scale? base start
  | some (negative, ds) =>
    let power := Text.ofDigits ds
    if 2147483648 ≤ power then
      if size = 0 ∨ negative then some 0 else none
    else
      scale? base (if negative then start - power else start + power)

/-- The number as a double, if it is within the range of doubles. -/
def toFloat? (n : Numeral) : Option Float :=
  n.magnitude?.map fun x => if n.negative then -x else x

/-- The number as a double, by its bits. -/
def toBinary64? (n : Numeral) : Option Binary64 :=
  match n.toInt? with
  | some i =>
    let x := i.natAbs.toUInt64.toFloat
    some ⟨(if i < 0 then -x else x).toBits⟩
  | none => n.toFloat?.map fun x => ⟨x.toBits⟩

/-- The number as a single, by its bits. An integer is rounded once; any other number is a double
first, and may become infinite. -/
def toBinary32? (n : Numeral) : Option Binary32 :=
  match n.toInt? with
  | some i =>
    let x := i.natAbs.toUInt64.toFloat32
    some ⟨(if i < 0 then -x else x).toBits⟩
  | none => n.toFloat?.map fun x => ⟨x.toFloat32.toBits⟩

/-- How far from one a number is still written without an exponent: the greatest number of digits
before the point, and of zeros after it. -/
structure Spread where
  before : Int
  after : Int

/-- The spelling of a finite binary number, which always shows that it is not an integer. -/
def ofScientific (spread : Spread) (negative : Bool) (x : Scientific) : Numeral :=
  if -spread.after ≤ x.exponent + 1 ∧ x.exponent + 1 ≤ spread.before then
    let (whole, fraction) := x.plainParts
    { negative, whole, fraction := if fraction = [] then ['0'] else fraction }
  else
    { negative, whole := x.digits.take 1, fraction := x.digits.drop 1,
      exponent := some (x.exponent < 0, Text.digits x.exponent.natAbs) }

/-- The spelling of a binary number, if it is finite. -/
def ofReading? (spread : Spread) : Reading → Option Numeral
  | .finite negative x => some (ofScientific spread negative x.shortest)
  | _ => none

/-- Doubles have at most 16 digits before the point and four zeros after it. -/
def ofBinary64? (x : Binary64) : Option Numeral :=
  ofReading? ⟨16, 4⟩ x.reading

/-- Singles have at most 13 digits before the point and five zeros after it. -/
def ofBinary32? (x : Binary32) : Option Numeral :=
  ofReading? ⟨13, 5⟩ x.reading

end Numeral

end SqlLowering.Json
