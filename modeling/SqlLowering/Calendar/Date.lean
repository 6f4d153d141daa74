import SqlLowering.Text.Blank
import SqlLowering.Text.Digits

/-!
# Calendar dates

Dates of the proleptic Gregorian calendar, with the years from -262143 to 262142. A date is valid by
construction. Its text is `YYYY-MM-DD`; a year outside 0 to 9999 carries a sign.
-/

namespace SqlLowering.Calendar

open SqlLowering

/-- The Gregorian rule for leap years, also for years before its introduction. -/
def isLeapYear (year : Int) : Bool :=
  year % 4 == 0 && (year % 100 != 0 || year % 400 == 0)

/-- The number of days of a month; zero for a number that is no month. -/
def daysInMonth (year : Int) (month : Nat) : Nat :=
  match month with
  | 1 | 3 | 5 | 7 | 8 | 10 | 12 => 31
  | 4 | 6 | 9 | 11 => 30
  | 2 => if isLeapYear year then 29 else 28
  | _ => 0

/-- A day of the calendar, in the range of supported years. -/
def IsDay (year : Int) (month day : Nat) : Prop :=
  -262143 ≤ year ∧ year ≤ 262142 ∧ 1 ≤ day ∧ day ≤ daysInMonth year month

instance (year : Int) (month day : Nat) : Decidable (IsDay year month day) :=
  inferInstanceAs (Decidable (_ ∧ _ ∧ _ ∧ _))

/-- A date of the proleptic Gregorian calendar. -/
structure Date where
  year : Int
  month : Nat
  day : Nat
  isDay : IsDay year month day
deriving DecidableEq

namespace Date

/-- The date with the given parts, if there is one. -/
def ofParts? (year : Int) (month day : Nat) : Option Date :=
  if h : IsDay year month day then some ⟨year, month, day, h⟩ else none

/-- The day from which weekdays and weeks are counted, a Thursday. -/
def epoch : Date := ⟨1970, 1, 1, by decide⟩

/-- At least four digits of the year; a sign outside 0 to 9999. -/
def yearText (year : Int) : List Char :=
  if 0 ≤ year ∧ year ≤ 9999 then Text.padded 4 year.natAbs
  else (if year < 0 then '-' else '+') :: Text.padded 4 year.natAbs

/-- The characters `YYYY-MM-DD`. -/
def chars (d : Date) : List Char :=
  yearText d.year ++ '-' :: Text.padded 2 d.month ++ '-' :: Text.padded 2 d.day

/-- The text `YYYY-MM-DD`. -/
def text (d : Date) : String :=
  String.ofList d.chars

/-- Read a year: at most four digits, or any number of them after a sign. -/
def readYear (cs : List Char) : Option (Int × List Char) :=
  match cs with
  | '-' :: rest => (Text.readNat rest.length rest).map fun (n, rest) => (-(n : Int), rest)
  | '+' :: rest => (Text.readNat rest.length rest).map fun (n, rest) => ((n : Int), rest)
  | _ => (Text.readNat 4 cs).map fun (n, rest) => ((n : Int), rest)

/-- Read a date from the front of a text. Blanks may stand before each number and before each
hyphen, and are skipped after the day. -/
def read (cs : List Char) : Option (Date × List Char) := do
  let (year, cs) ← readYear (Text.skipBlanks cs)
  let cs ← Text.readChar '-' (Text.skipBlanks cs)
  let (month, cs) ← Text.readNat 2 (Text.skipBlanks cs)
  let cs ← Text.readChar '-' (Text.skipBlanks cs)
  let (day, cs) ← Text.readNat 2 (Text.skipBlanks cs)
  let date ← ofParts? year month day
  pure (date, Text.skipBlanks cs)

/-- Read a text that is a date and nothing else. -/
def parse? (text : String) : Option Date :=
  match read text.toList with
  | some (date, []) => some date
  | _ => none

end Date

end SqlLowering.Calendar
