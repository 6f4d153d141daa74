import SqlLowering.Text.Digits

/-!
# Exact decimals

An exact decimal is a sign and a size of at most 96 bits over a power of ten up to `10 ^ 28`. The
scale belongs to the value, so `2.50` and `2.5` are different decimals. Zero is read without a
sign; it has one where a small negative number with a power of ten is rounded to it.

Reading keeps the digits that fit and rounds half up at the first fraction digit that does not; only
digits and separators may follow that digit.
-/

namespace SqlLowering.Number

open SqlLowering

/-- `2 ^ 96`, the bound of a size. -/
abbrev sizeBound : Nat := 79228162514264337593543950336

/-- An exact decimal `± size / 10 ^ scale`. -/
structure Decimal where
  negative : Bool
  size : Nat
  scale : Nat
  size_lt : size < sizeBound
  scale_le : scale ≤ 28
deriving DecidableEq

namespace Decimal

/-- The greatest number of digits after the point. -/
def maxScale : Nat := 28

/-- The decimal with the given sign, size and scale, if it fits. -/
def signed? (negative : Bool) (size scale : Nat) : Option Decimal :=
  if h : size < sizeBound ∧ scale ≤ 28 then some ⟨negative, size, scale, h.1, h.2⟩ else none

/-- The decimal with the given sign, size and scale, if it fits; zero loses its sign. -/
def ofParts? (negative : Bool) (size scale : Nat) : Option Decimal :=
  signed? (negative && size != 0) size scale

/-- The decimal of an integer, if it fits. -/
def ofInt? (i : Int) : Option Decimal :=
  ofParts? (i < 0) i.natAbs 0

/-- The number of decimal digits of the size. -/
def digitCount (d : Decimal) : Nat :=
  (Text.digits d.size).length

/-- The digits a column needs to hold the decimal: those of the size, but no fewer than the scale
and no fewer than one. -/
def precision (d : Decimal) : Nat :=
  max (max d.digitCount d.scale) 1

/-- The plain text, with every digit of the scale written. -/
def text (d : Decimal) : String :=
  let ds := Text.padded (d.scale + 1) d.size
  let whole := ds.take (ds.length - d.scale)
  let fraction := ds.drop (ds.length - d.scale)
  let body := if d.scale = 0 then whole else whole ++ '.' :: fraction
  (if d.negative then "-" else "") ++ String.ofList body

/-- How far the digits of a decimal have been read. -/
structure Progress where
  size : Nat := 0
  scale : Nat := 0
  /-- the point has been read -/
  point : Bool := false
  /-- a digit has been read -/
  seen : Bool := false
  /-- the size has come close to the bound of a word of 64 bits with places left -/
  wide : Bool := false

namespace Progress

/-- A tenth of the bound of a word of 64 bits, less 255: a smaller size has room for another digit.
-/
def wideFrom : Nat := 1844674407370954906

/-- Whether all places after the point are taken. -/
def isFull (p : Progress) : Bool :=
  p.point && maxScale ≤ p.scale

/-- Take a digit, by which the size becomes the given one. -/
def grow (p : Progress) (size : Nat) : Progress :=
  let scale := if p.point then p.scale + 1 else p.scale
  let full := p.point && maxScale ≤ scale
  { p with
    size := size
    scale := scale
    seen := true
    wide := p.wide || (wideFrom ≤ size && !full) }

/-- Whether a character may stand where it no longer counts. -/
def isTrailing (c : Char) : Bool :=
  c.isDigit || c == '_'

/-- Close a reading at a character that no longer fits: a digit of five or more rounds the size up,
and a size that outgrows 96 bits by that gives up its last digit. A separator counts as a zero. -/
def round (p : Progress) : List Char → Option (Nat × Nat)
  | [] => some (p.size, p.scale)
  | next :: rest =>
    if !(next :: rest).all isTrailing then none
    else if next.isDigit ∧ '5' ≤ next then
      if p.size + 1 < sizeBound then some (p.size + 1, p.scale)
      else if p.scale = 0 then none
      else some ((p.size + 5) / 10, p.scale - 1)
    else
      some (p.size, p.scale)

/-- Close a reading whose places are all taken. Only a wide one skips separators before the digit
that decides on rounding. -/
def close (p : Progress) (cs : List Char) : Option (Nat × Nat) :=
  p.round (if p.wide then cs.dropWhile (· == '_') else cs)

/-- Read digits with at most one point among them, into a size and a scale; separators are skipped
after the first digit. -/
def read (p : Progress) : List Char → Option (Nat × Nat)
  | [] => if p.seen then some (p.size, p.scale) else none
  | c :: cs =>
    if p.isFull then
      p.close (c :: cs)
    else if c.isDigit then
      let grown := p.size * 10 + Text.ofDigits [c]
      if grown < sizeBound then read (p.grow grown) cs
      else if p.point then p.round (c :: cs)
      else none
    else if c = '.' ∧ !p.point then
      read { p with point := true } cs
    else if c = '_' ∧ p.seen then
      read p cs
    else
      none

end Progress

/-- Read a decimal without an exponent, with an optional sign in front. -/
def readPlain? (cs : List Char) : Option Decimal := do
  let (negative, body) := match cs with
    | '-' :: rest => (true, rest)
    | '+' :: rest => (false, rest)
    | _ => (false, cs)
  let (size, scale) ← Progress.read {} body
  ofParts? negative size scale

/-- Move the point to the right: the scale shrinks first, then the size grows. The point never moves
by more than 28 places. -/
def shiftRight? (d : Decimal) (places : Nat) : Option Decimal :=
  if places ≤ d.scale then
    ofParts? d.negative d.size (d.scale - places)
  else if places ≤ maxScale then
    ofParts? d.negative (d.size * Nat.pow 10 (places - d.scale)) 0
  else
    none

/-- Move the point to the left by at most 28 places. Digits for which the scale has no room are
rounded away, by the first of them; the sign stays even if nothing else does. -/
def shiftLeft? (d : Decimal) (places : Nat) : Option Decimal :=
  if maxScale < places then
    none
  else if d.scale + places ≤ maxScale then
    signed? d.negative d.size (d.scale + places)
  else
    let surplus := d.scale + places - maxScale
    signed? d.negative ((d.size / Nat.pow 10 (surplus - 1) + 5) / 10) maxScale

/-- Read a decimal followed by a mark and a power of ten of at most 32 bits. -/
def readScientific? (cs : List Char) : Option Decimal := do
  let isMark (c : Char) : Bool := c == 'e' || c == 'E'
  let base ← readPlain? (cs.takeWhile (!isMark ·))
  let power ← match cs.dropWhile (!isMark ·) with
    | _ :: power => some power
    | [] => none
  let bounded (text : List Char) : Option Nat :=
    (Text.unsigned? text).filter (· < UInt32.size)
  match power with
  | '-' :: rest => do base.shiftLeft? (← bounded rest)
  | _ => do base.shiftRight? (← bounded power)

/-- Read a decimal, plain or with a power of ten. -/
def parse? (text : String) : Option Decimal :=
  readPlain? text.toList <|> readScientific? text.toList

end Decimal

end SqlLowering.Number
