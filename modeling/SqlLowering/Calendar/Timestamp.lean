import SqlLowering.Calendar.Date

/-!
# Timestamps without a zone

A date and a time of day with nanoseconds. The second 60 is a time of its own and is kept as it is
written. The fraction is written with none, three, six or nine digits, the fewest that are exact.
-/

namespace SqlLowering.Calendar

open SqlLowering

/-- A time of day; second 60 is allowed in every minute. -/
def IsTime (hour minute second nanos : Nat) : Prop :=
  hour < 24 ∧ minute < 60 ∧ second ≤ 60 ∧ nanos < 1000000000

instance (hour minute second nanos : Nat) : Decidable (IsTime hour minute second nanos) :=
  inferInstanceAs (Decidable (_ ∧ _ ∧ _ ∧ _))

/-- A date and a time of day, in no particular zone. -/
structure Timestamp where
  date : Date
  hour : Nat
  minute : Nat
  second : Nat
  nanos : Nat
  isTime : IsTime hour minute second nanos
deriving DecidableEq

namespace Timestamp

/-- The timestamp with the given parts, if they are a time of day. -/
def ofParts? (date : Date) (hour minute second nanos : Nat) : Option Timestamp :=
  if h : IsTime hour minute second nanos then some ⟨date, hour, minute, second, nanos, h⟩ else none

/-- The fraction of the second with a point in front, or nothing. -/
def fractionText (nanos : Nat) : List Char :=
  if nanos = 0 then []
  else if nanos % 1000000 = 0 then '.' :: Text.padded 3 (nanos / 1000000)
  else if nanos % 1000 = 0 then '.' :: Text.padded 6 (nanos / 1000)
  else '.' :: Text.padded 9 nanos

/-- The text of the timestamp with the given character between date and time. -/
def textWith (divider : Char) (t : Timestamp) : String :=
  String.ofList (t.date.chars ++ divider :: Text.padded 2 t.hour ++ ':' :: Text.padded 2 t.minute ++
    ':' :: Text.padded 2 t.second ++ fractionText t.nanos)

/-- The text with a `T` between date and time. -/
def text (t : Timestamp) : String :=
  t.textWith 'T'

/-- Read a fraction: a point and at least one digit. Digits after the ninth are dropped. Without a
point the fraction is zero. -/
def readFraction (cs : List Char) : Option (Nat × List Char) :=
  match cs with
  | '.' :: rest => do
    let (ds, rest) ← Text.readDigits 9 rest
    pure (Text.ofDigits ds * Nat.pow 10 (9 - ds.length), rest.dropWhile Char.isDigit)
  | _ => some (0, cs)

/-- Read a text that is a timestamp and nothing else. Blanks may stand before each number, before
each divider but the point, and at the end. -/
def parse? (text : String) : Option Timestamp := do
  let (date, cs) ← Date.read text.toList
  let cs ← Text.readChar 'T' cs
  let (hour, cs) ← Text.readNat 2 (Text.skipBlanks cs)
  let cs ← Text.readChar ':' (Text.skipBlanks cs)
  let (minute, cs) ← Text.readNat 2 (Text.skipBlanks cs)
  let cs ← Text.readChar ':' (Text.skipBlanks cs)
  let (second, cs) ← Text.readNat 2 (Text.skipBlanks cs)
  let (nanos, cs) ← readFraction cs
  guard (Text.skipBlanks cs = [])
  ofParts? date hour minute second nanos

end Timestamp

end SqlLowering.Calendar
