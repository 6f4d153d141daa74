/-!
# Weekdays

The first day of 1970 was a Thursday, so weekdays are counted from there: Thursday is 0 and
Wednesday is 6. Each weekday has three spellings, of two letters, three letters and in full, and the
case of ASCII letters does not matter.
-/

namespace SqlLowering.Calendar

/-- A day of the week. -/
inductive Weekday where
  | thursday
  | friday
  | saturday
  | sunday
  | monday
  | tuesday
  | wednesday
deriving DecidableEq, Repr

namespace Weekday

/-- The weekdays in the order of their offsets. -/
def all : List Weekday :=
  [thursday, friday, saturday, sunday, monday, tuesday, wednesday]

/-- The days from the first of January 1970 to the first such weekday. -/
def offset : Weekday → Nat
  | thursday => 0
  | friday => 1
  | saturday => 2
  | sunday => 3
  | monday => 4
  | tuesday => 5
  | wednesday => 6

/-- The accepted spellings, in capitals. -/
def spellings : Weekday → List String
  | thursday => ["TH", "THU", "THURSDAY"]
  | friday => ["FR", "FRI", "FRIDAY"]
  | saturday => ["SA", "SAT", "SATURDAY"]
  | sunday => ["SU", "SUN", "SUNDAY"]
  | monday => ["MO", "MON", "MONDAY"]
  | tuesday => ["TU", "TUE", "TUESDAY"]
  | wednesday => ["WE", "WED", "WEDNESDAY"]

/-- The weekday that a name spells, whatever the case of its ASCII letters. -/
def ofName? (name : String) : Option Weekday :=
  all.find? fun day => day.spellings.contains (name.map Char.toUpper)

end Weekday

end SqlLowering.Calendar
