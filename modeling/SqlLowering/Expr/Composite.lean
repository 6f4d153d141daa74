import SqlLowering.Calendar.Weekday
import SqlLowering.Expr.Measure
import SqlLowering.Outcome

/-!
# Composite calls

The target has no function for "the next Monday after" or "weeks between, counted from Sundays".
Such a call stands for a tree of simpler ones, built here. Days are counted from the first of
January 1970, and weeks are whole multiples of seven days, rounded down.

Main statement: `Expr.compositeDepth_lt_of_expansion`. The tree of a composite call has fewer
composite calls on every path than the call itself, because all composite calls in it lie inside
the arguments.
-/

namespace SqlLowering

open Calendar

namespace Composite

/-- The zone in which timestamps are kept. -/
def utc : Expr := .text "UTC"

/-- The greatest whole number below. -/
def floor (x : Expr) : Expr := .call .floor [x]

/-- The days from the first of January 1970 to a date. -/
def daysSinceEpoch (x : Expr) : Expr :=
  .call .dateDiff [.cast x .date, .ofValue (.date Date.epoch)]

/-- The days from the first such weekday on or after the first of January 1970. -/
def daysSince (start : Weekday) (x : Expr) : Expr :=
  .binary .sub (daysSinceEpoch x) (.long (.ofNat start.offset))

/-- The number of the week that a date falls into, when weeks begin on `start`. -/
def weekNumber (start : Weekday) (x : Expr) : Expr :=
  floor (.binary .div (daysSince start x) (.long 7))

/-- The days since the latest such weekday, from 0 to 6. -/
def daysIntoWeek (start : Weekday) (x : Expr) : Expr :=
  .binary .sub (daysSince start x) (.binary .mul (weekNumber start x) (.long 7))

/-- The first such weekday after a date. -/
def nextDay (day : Weekday) (date : Expr) : Expr :=
  .call .dateAdd [.cast date .date, .binary .sub (.long 7) (daysIntoWeek day date)]

/-- The weeks from an earlier date to a later one, counted by the days on which they begin. -/
def weekDiff (start : Weekday) (later earlier : Expr) : Expr :=
  .binary .sub (weekNumber start later) (weekNumber start earlier)

/-- The date in a zone at an instant. -/
def localDate (instant zone : Expr) : Expr :=
  .cast (.call .convertTz [instant, utc, zone]) .date

/-- The instant at which the day of an instant began in a zone. -/
def dayStart (instant zone : Expr) : Expr :=
  .call .convertTz [.cast (localDate instant zone) .timestamp, zone, utc]

/-- The weekday that a string literal names. Any other expression names none, and a literal that
spells no weekday is an error. -/
def weekday (e : Expr) : Outcome Weekday :=
  match e.stringLiteral? with
  | none => .untranslatable
  | some name =>
    match Weekday.ofName? name with
    | some day => .done day
    | none => .unknownWeekday name

/-- The tree that a composite call stands for. There is none for other functions and for arguments
of another number. -/
def expand : ScalarFunction → List Expr → Outcome Expr
  | .dayStartInTimezone, [instant, zone] => .done (dayStart instant zone)
  | .stringToDateInTimezone, [input, zone] => .done (localDate (.cast input .timestamp) zone)
  | .stringToDateInTimezone, [input, format, zone] =>
    .done (localDate (.call .strToDate [input, format]) zone)
  | .dayDiff, [later, earlier] =>
    .done (.call .dateDiff [.cast later .date, .cast earlier .date])
  | .weekDiff, [later, earlier, start] => do pure (weekDiff (← weekday start) later earlier)
  | .nextDay, [date, day] => do pure (nextDay (← weekday day) date)
  | .dayOfWeekName, [date] => .done (.call .dateFormat [date, .text "EEEE"])
  | .fromUnixTimeFormatted, [seconds, format] =>
    .done (.call .dateFormat [.call .fromUnixTime [seconds], format])
  | _, _ => .untranslatable

section Depth

@[simp] theorem compositeDepth_text (s : String) : (Expr.text s).compositeDepth = 0 := by
  simp [Expr.text, Expr.ofValue]

@[simp] theorem compositeDepth_daysSince (start : Weekday) (x : Expr) :
    (daysSince start x).compositeDepth = x.compositeDepth := by
  have plain : ScalarFunction.dateDiff.isComposite = false := rfl
  simp [daysSince, daysSinceEpoch, Expr.long, Expr.ofValue, plain]

@[simp] theorem compositeDepth_weekNumber (start : Weekday) (x : Expr) :
    (weekNumber start x).compositeDepth = x.compositeDepth := by
  have plain : ScalarFunction.floor.isComposite = false := rfl
  simp [weekNumber, floor, Expr.long, Expr.ofValue, plain]

@[simp] theorem compositeDepth_nextDay (day : Weekday) (date : Expr) :
    (nextDay day date).compositeDepth = date.compositeDepth := by
  have plain : ScalarFunction.dateAdd.isComposite = false := rfl
  simp [nextDay, daysIntoWeek, Expr.long, Expr.ofValue, plain]

@[simp] theorem compositeDepth_weekDiff (start : Weekday) (later earlier : Expr) :
    (weekDiff start later earlier).compositeDepth =
      max later.compositeDepth earlier.compositeDepth := by
  simp [weekDiff]

@[simp] theorem compositeDepth_localDate (instant zone : Expr) :
    (localDate instant zone).compositeDepth =
      max instant.compositeDepth zone.compositeDepth := by
  have plain : ScalarFunction.convertTz.isComposite = false := rfl
  simp [localDate, utc, plain]

@[simp] theorem compositeDepth_dayStart (instant zone : Expr) :
    (dayStart instant zone).compositeDepth = max instant.compositeDepth zone.compositeDepth := by
  have plain : ScalarFunction.convertTz.isComposite = false := rfl
  simp only [dayStart, utc, Expr.compositeDepth_call, plain, Expr.greatestDepth_cons,
    Expr.compositeDepth_cast, compositeDepth_localDate, compositeDepth_text,
    Expr.greatestDepth_nil]
  simp

/-- Only a composite call stands for a tree, and all composite calls of the tree lie inside the
arguments. -/
theorem compositeDepth_le_of_expand {func : ScalarFunction} {args : List Expr} {tree : Expr}
    (h : expand func args = .done tree) :
    func.isComposite = true ∧ tree.compositeDepth ≤ Expr.greatestDepth args := by
  have diff : ScalarFunction.dateDiff.isComposite = false := rfl
  have parsed : ScalarFunction.strToDate.isComposite = false := rfl
  have shown : ScalarFunction.dateFormat.isComposite = false := rfl
  have instant : ScalarFunction.fromUnixTime.isComposite = false := rfl
  unfold expand at h
  split at h
  case h_5 =>
    obtain ⟨start, -, h⟩ := Outcome.bind_eq_done.mp h
    cases h
    refine ⟨rfl, ?_⟩
    rw [compositeDepth_weekDiff, Expr.greatestDepth_cons, Expr.greatestDepth_cons]
    omega
  case h_6 =>
    obtain ⟨day, -, h⟩ := Outcome.bind_eq_done.mp h
    cases h
    refine ⟨rfl, ?_⟩
    rw [compositeDepth_nextDay, Expr.greatestDepth_cons]
    omega
  case h_9 => cases h
  all_goals
    cases h
    exact ⟨rfl, by simp [diff, parsed, shown, instant]⟩

end Depth

end Composite

namespace Expr

/-- The tree that a node stands for, if it is a composite call. -/
def expansion : Expr → Outcome Expr
  | .call func args => Composite.expand func args
  | _ => .untranslatable

/-- Every composite call in the tree of a composite call lies inside one of its arguments, so the
call itself no longer counts. -/
theorem compositeDepth_lt_of_expansion {e tree : Expr} (h : e.expansion = .done tree) :
    tree.compositeDepth < e.compositeDepth := by
  cases e with
  | call func args =>
    obtain ⟨composite, le⟩ := Composite.compositeDepth_le_of_expand h
    simp only [compositeDepth_call, composite, if_true]
    omega
  | _ => cases h

end Expr

end SqlLowering
