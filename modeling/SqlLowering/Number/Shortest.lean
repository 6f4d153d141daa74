import SqlLowering.Number.Binary
import SqlLowering.Text.Digits

/-!
# Shortest decimal digits

The decimal written for a binary number is the one with the fewest digits among those that read
back as that number; of two such decimals the nearer one, and of two equally near ones the
greater. The search looks at the two neighbours of the number on the grids of 1, 2, 3, ... decimal
digits, in exact arithmetic, and stops at the first grid with a hit.
-/

namespace SqlLowering.Number

open SqlLowering

/-- A positive decimal in scientific form: the first digit stands before the point, and the whole is
multiplied by `10 ^ exponent`. -/
structure Scientific where
  digits : List Char
  exponent : Int
deriving DecidableEq, Repr

namespace Magnitude

/-- The magnitude and the two ends of the interval of reals that round to it. All three share their
denominator, a quarter of the unit in the last place being a whole number of its parts. -/
structure Span where
  low : Nat
  middle : Nat
  high : Nat
  den : Nat
  /-- The ends belong to the interval when the mantissa is even. -/
  closed : Bool

/-- The interval of reals around a magnitude. -/
def span (x : Magnitude) : Span :=
  let up := Nat.pow 2 (x.exponent - 2).toNat
  { low := (4 * x.mantissa - if x.narrowBelow then 1 else 2) * up
    middle := 4 * x.mantissa * up
    high := (4 * x.mantissa + 2) * up
    den := Nat.pow 2 (2 - x.exponent).toNat
    closed := x.mantissa % 2 == 0 }

namespace Span

/-- The exponent of the first decimal digit of the middle, which must be positive. -/
def leadingExponent (s : Span) : Int :=
  if s.den ≤ s.middle then
    ((Text.digits (s.middle / s.den)).length : Int) - 1
  else
    -((Text.digits ((s.den - 1) / s.middle)).length : Int)

/-- Multiply the interval by `10 ^ (-k)`, so that the grid of step `10 ^ k` becomes the whole
numbers. -/
def rescale (s : Span) (k : Int) : Span :=
  let up := Nat.pow 10 (-k).toNat
  { s with low := s.low * up, middle := s.middle * up, high := s.high * up,
           den := s.den * Nat.pow 10 k.toNat }

/-- A whole number lies in the interval. -/
def holds (s : Span) (n : Nat) : Bool :=
  if s.closed then s.low ≤ n * s.den && n * s.den ≤ s.high
  else s.low < n * s.den && n * s.den < s.high

/-- The whole number nearest to the middle that lies in the interval, if a neighbour of the middle
does; a tie goes up. -/
def nearest? (s : Span) : Option Nat :=
  let below := s.middle / s.den
  let above := below + 1
  match s.holds below, s.holds above with
  | true, true =>
    if s.middle - below * s.den < above * s.den - s.middle then some below else some above
  | true, false => some below
  | false, true => some above
  | false, false => none

end Span

/-- The digits of a decimal without the zeros at its end, the first of which always stays. -/
def trimZeros (ds : List Char) : List Char :=
  match (ds.reverse.dropWhile (· == '0')).reverse with
  | [] => ['0']
  | trimmed => trimmed

/-- The shortest decimal that reads back as the given magnitude. Seventeen digits are enough for a
double and nine for a single. -/
def shortest (x : Magnitude) : Scientific :=
  if x.mantissa = 0 then
    ⟨['0'], 0⟩
  else
    let s := x.span
    let lead := s.leadingExponent
    let attempt (count : Nat) : Option Scientific :=
      (s.rescale (lead - (count - 1))).nearest?.map fun n =>
        let ds := Text.digits n
        ⟨trimZeros ds, lead - (count - 1) + (ds.length - 1)⟩
    ((List.range' 1 17).findSome? attempt).getD ⟨['0'], 0⟩

end Magnitude

end SqlLowering.Number
