import Mathlib.Data.Int.CardIntervalMod
import Mathlib.Data.Int.ConditionallyCompleteOrder
import Mathlib.Tactic.IntervalCases
import SqlLowering.Proofs.Weekdays

/-!
# Weekdays by arithmetic

The next Monday and the weeks between two dates are computed on the target by counting days from the
first of January 1970. Here the trees of these composite calls are evaluated: dates are day numbers,
division is exact, and the floor is the mathematical one. Expressions that are not arithmetic have
whatever value they are given.

Main statements: `Composite.evaluate_nextDay` and `Composite.evaluate_weekDiff`. The first tree is
the least later date on the weekday, and the second one counts the dates on the weekday between its
two dates, with the sign of their distance. Both hold on either side of 1970.
-/

namespace SqlLowering

open Calendar

/-! ## Day numbers -/

namespace Calendar

/-- The days of all years from the year 1 to the one before; negative for earlier years. -/
def daysBeforeYear (year : Int) : Int :=
  365 * (year - 1) + (year - 1) / 4 - (year - 1) / 100 + (year - 1) / 400

/-- The days from the first of January 1970 to a date. -/
def Date.dayNumber (d : Date) : Int :=
  daysBeforeYear d.year - daysBeforeYear 1970 +
    ((List.range d.month).map (daysInMonth d.year)).sum + d.day - 1

/-- The nanoseconds of a time of day since midnight. -/
def Timestamp.nanosOfDay (t : Timestamp) : Nat :=
  ((t.hour * 60 + t.minute) * 60 + t.second) * 1000000000 + t.nanos

namespace Weekday

/-- The weekday of the day with a number. The first of January 1970 was a Thursday. -/
def ofDay (n : Int) : Weekday :=
  match (n % 7).toNat with
  | 0 => thursday
  | 1 => friday
  | 2 => saturday
  | 3 => sunday
  | 4 => monday
  | 5 => tuesday
  | _ => wednesday

/-- The dates after `start` and not after `stop` that fall on a weekday. -/
noncomputable def countBetween (day : Weekday) (start stop : Int) : Nat :=
  ((Finset.Ioc start stop).filter fun t => ofDay t = day).card

/-- A name is a spelling of a weekday, whatever the case of its ASCII letters. -/
def IsSpelled (day : Weekday) (name : String) : Prop :=
  ∃ spelling ∈ day.spellings, name.toLower = spelling.toLower

/-- A week has seven days, so the first of each weekday comes within a week. -/
theorem offset_lt (day : Weekday) : day.offset < 7 := by
  cases day <;> decide

/-- A day falls on a weekday exactly if it is a whole number of weeks from the first one, also
before 1970. -/
theorem ofDay_eq_iff {n : Int} {day : Weekday} : ofDay n = day ↔ n % 7 = day.offset := by
  have lower : 0 ≤ n % 7 := Int.emod_nonneg n (by decide)
  have upper : n % 7 < 7 := Int.emod_lt_of_pos n (by decide)
  rw [ofDay]
  generalize n % 7 = r at lower upper
  interval_cases r <;> cases day <;> decide

/-- A name is accepted for a weekday exactly if it is one of its spellings; no spelling belongs to
two weekdays. -/
theorem ofName?_eq_some_iff {day : Weekday} {name : String} :
    ofName? name = some day ↔ day.IsSpelled name := by
  rw [IsSpelled, ← toUpper_mem_spellings]
  constructor
  · intro found
    rw [ofName?] at found
    have listed := List.find?_some found
    exact List.contains_iff_mem.mp listed
  · intro capital
    have found (letters : String) (mem : letters ∈ day.spellings) :
        (all.find? fun other => other.spellings.contains letters) = some day := by
      revert letters
      cases day <;> decide
    exact found name.toUpper capital

/-- The dates on a weekday are seven days apart, so their number grows with the floor of the seventh
part of the distance from the first of them. -/
theorem countBetween_eq (day : Weekday) {start stop : Int} (h : start ≤ stop) :
    (day.countBetween start stop : Int) =
      (stop - day.offset) / 7 - (start - day.offset) / 7 := by
  have residues : ((Finset.Ioc start stop).filter fun t => ofDay t = day) =
      (Finset.Ioc start stop).filter fun t => t ≡ day.offset [ZMOD 7] := by
    apply Finset.filter_congr
    intro t _
    have small := day.offset_lt
    rw [ofDay_eq_iff, Int.ModEq]
    omega
  have part (t : Int) : ⌊((t : ℚ) - ((day.offset : Int) : ℚ)) / ((7 : Int) : ℚ)⌋ =
      (t - day.offset) / 7 := by
    exact_mod_cast Rat.floor_intCast_div_natCast (t - day.offset) 7
  rw [countBetween, residues, Int.Ioc_filter_modEq_card start stop (by decide), part, part]
  omega

/-- The first later date on a weekday comes after one to seven days; after seven for a date that
falls on the weekday itself. -/
theorem isLeast_next (day : Weekday) (d : Int) :
    IsLeast {t | d < t ∧ ofDay t = day} (d + (7 - (d - day.offset) % 7)) := by
  have small := day.offset_lt
  constructor
  · show d < _ ∧ ofDay _ = day
    rw [ofDay_eq_iff]
    omega
  · rintro t ⟨later, falls⟩
    rw [ofDay_eq_iff] at falls
    omega

end Weekday

end Calendar

/-! ## Evaluation -/

/-- The value of an expression in a row: a date or a point in time by the number of the day, or a
number. -/
inductive Quantity where
  | date (day : Int)
  | timestamp (day : Int) (nanos : Nat)
  | number (value : ℚ)
deriving DecidableEq

namespace Quantity

/-- The day of a date or of a point in time. -/
def day? : Quantity → Option Int
  | date day | timestamp day _ => some day
  | number _ => none

/-- The value of a number. -/
def number? : Quantity → Option ℚ
  | number value => some value
  | date _ | timestamp .. => none

/-- A date or a point in time some days later. -/
def addDays? (days : Int) : Quantity → Option Quantity
  | date day => some (date (day + days))
  | timestamp day nanos => some (timestamp (day + days) nanos)
  | number _ => none

end Quantity

namespace Expr

/-- Evaluate date arithmetic. All other expressions have the value that they are given; there is
none for null. -/
def evaluate (given : Expr → Option Quantity) : Expr → Option Quantity
  | .literal (.long n) _ => some (.number n.toInt)
  | .literal (.date d) _ => some (.date d.dayNumber)
  | .literal (.timestamp t) _ => some (.timestamp t.date.dayNumber t.nanosOfDay)
  | .cast x .date => do
    let day ← (← x.evaluate given).day?
    return .date day
  | .binary .sub x y => do
    let a ← (← x.evaluate given).number?
    let b ← (← y.evaluate given).number?
    return .number (a - b)
  | .binary .mul x y => do
    let a ← (← x.evaluate given).number?
    let b ← (← y.evaluate given).number?
    return .number (a * b)
  | .binary .div x y => do
    let a ← (← x.evaluate given).number?
    let b ← (← y.evaluate given).number?
    guard (b ≠ 0)
    return .number (a / b)
  | .call .floor [x] => do
    let a ← (← x.evaluate given).number?
    return .number ⌊a⌋
  | .call .dateDiff [x, y] => do
    let later ← (← x.evaluate given).day?
    let earlier ← (← y.evaluate given).day?
    return .number (later - earlier : Int)
  | .call .dateAdd [x, amount] => do
    let start ← x.evaluate given
    let days ← (← amount.evaluate given).number?
    guard days.isInt
    start.addDays? days.num
  | e => given e

/-- The value of an expression is a date or a point in time of this day. -/
def FallsOn (given : Expr → Option Quantity) (x : Expr) (day : Int) : Prop :=
  ∃ value, x.evaluate given = some value ∧ value.day? = some day

section Operations

variable {given : Expr → Option Quantity} {x y : Expr} {a b : ℚ} {d n : Int}

theorem evaluate_long (n : Int64) : (long n).evaluate given = some (.number n.toInt) := rfl

theorem evaluate_sub (left : x.evaluate given = some (.number a))
    (right : y.evaluate given = some (.number b)) :
    (binary .sub x y).evaluate given = some (.number (a - b)) := by
  rw [evaluate, left, right]
  rfl

theorem evaluate_mul (left : x.evaluate given = some (.number a))
    (right : y.evaluate given = some (.number b)) :
    (binary .mul x y).evaluate given = some (.number (a * b)) := by
  rw [evaluate, left, right]
  rfl

/-- Division is exact, and there is no value for a division by zero. -/
theorem evaluate_div (left : x.evaluate given = some (.number a))
    (right : y.evaluate given = some (.number b)) (ne : b ≠ 0) :
    (binary .div x y).evaluate given = some (.number (a / b)) := by
  rw [evaluate, left, right]
  simp [Quantity.number?, ne]

theorem evaluate_floor (operand : x.evaluate given = some (.number a)) :
    (call .floor [x]).evaluate given = some (.number ⌊a⌋) := by
  rw [evaluate, operand]
  rfl

/-- A cast to a date drops the time of day and keeps the day. -/
theorem evaluate_castDate (on : x.FallsOn given d) :
    (cast x .date).evaluate given = some (.date d) := by
  obtain ⟨value, evaluated, same⟩ := on
  rw [evaluate, evaluated]
  simp [same]

/-- The difference of two dates is the number of days between them, with a sign. -/
theorem evaluate_dateDiff (later : x.evaluate given = some (.date d))
    (earlier : y.evaluate given = some (.date n)) :
    (call .dateDiff [x, y]).evaluate given = some (.number (d - n : Int)) := by
  rw [evaluate, later, earlier]
  rfl

/-- A whole number of days can be added to a date. -/
theorem evaluate_dateAdd (start : x.evaluate given = some (.date d))
    (amount : y.evaluate given = some (.number n)) :
    (call .dateAdd [x, y]).evaluate given = some (.date (d + n)) := by
  have whole : (n : ℚ).isInt = true := by simp [Rat.isInt]
  rw [evaluate, start, amount]
  simp [Quantity.number?, Quantity.addDays?, whole]

end Operations

end Expr

/-! ## Composite calls -/

namespace Composite

variable {given : Expr → Option Quantity} {x : Expr} {d : Int}

/-- The day number is the difference to the first of January 1970, whose own number is zero. -/
theorem evaluate_daysSinceEpoch (on : x.FallsOn given d) :
    (daysSinceEpoch x).evaluate given = some (.number d) := by
  have epoch : (Expr.ofValue (.date Date.epoch)).evaluate given = some (.date 0) := rfl
  rw [daysSinceEpoch, Expr.evaluate_dateDiff (Expr.evaluate_castDate on) epoch, Int.sub_zero]

/-- The days are counted from the first such weekday, by subtraction of its day number. -/
theorem evaluate_daysSince (start : Weekday) (on : x.FallsOn given d) :
    (daysSince start x).evaluate given = some (.number (d - start.offset : Int)) := by
  have offset : (Int64.ofNat start.offset).toInt = start.offset := by
    cases start <;> decide
  rw [daysSince, Expr.evaluate_sub (evaluate_daysSinceEpoch on) (Expr.evaluate_long _), offset,
    Int.cast_sub]

/-- The floor of the exact quotient is the whole number of weeks, also before 1970. -/
theorem evaluate_weekNumber (start : Weekday) (on : x.FallsOn given d) :
    (weekNumber start x).evaluate given = some (.number ((d - start.offset) / 7 : Int)) := by
  have seven : ((7 : Int64).toInt : ℚ) ≠ 0 := by decide
  have quotient := Expr.evaluate_div (evaluate_daysSince start on) (Expr.evaluate_long 7) seven
  have whole : ⌊((d - start.offset : Int) : ℚ) / ((7 : Int64).toInt : ℚ)⌋ =
      (d - start.offset) / 7 :=
    Rat.floor_intCast_div_natCast (d - start.offset) 7
  rw [weekNumber, floor, Expr.evaluate_floor quotient, whole]

/-- What is left over the whole weeks is the remainder that is never negative, since the floor goes
down before 1970 too. -/
theorem evaluate_daysIntoWeek (start : Weekday) (on : x.FallsOn given d) :
    (daysIntoWeek start x).evaluate given = some (.number ((d - start.offset) % 7 : Int)) := by
  have weeks := Expr.evaluate_mul (evaluate_weekNumber start on) (Expr.evaluate_long 7)
  have rest : ((d - start.offset : Int) : ℚ) -
      ((d - start.offset) / 7 : Int) * ((7 : Int64).toInt : ℚ) =
        ((d - start.offset) % 7 : Int) := by
    rw [Int.emod_def, mul_comm (7 : Int)]
    exact_mod_cast rfl
  rw [daysIntoWeek, Expr.evaluate_sub (evaluate_daysSince start on) weeks, rest]

/-- A literal with a spelling of a weekday names that weekday. -/
theorem weekday_of_isSpelled {w : Expr} {name : String} {day : Weekday}
    (literal : w.stringLiteral? = some name) (spelled : day.IsSpelled name) :
    weekday w = .done day := by
  simp only [weekday, literal, Weekday.ofName?_eq_some_iff.mpr spelled]

/-- The next such weekday after a date. For every spelling of the weekday the call stands for a tree
that adds a number of days to the date, from one to seven, and its value is the least later date
that falls on the weekday. -/
theorem evaluate_nextDay (given : Expr → Option Quantity) {x w : Expr} {name : String}
    {day : Weekday} {d : Int} (literal : w.stringLiteral? = some name)
    (spelled : day.IsSpelled name) (on : x.FallsOn given d) :
    ∃ (amount : Expr) (days : Int),
      expand .nextDay [x, w] = .done (.call .dateAdd [.cast x .date, amount]) ∧
      amount.evaluate given = some (.number days) ∧ 1 ≤ days ∧ days ≤ 7 ∧
      (Expr.call .dateAdd [.cast x .date, amount]).evaluate given = some (.date (d + days)) ∧
      IsLeast {t | d < t ∧ Weekday.ofDay t = day} (d + days) := by
  have amount : (Expr.binary .sub (.long 7) (daysIntoWeek day x)).evaluate given =
      some (.number (7 - (d - day.offset) % 7 : Int)) := by
    rw [Expr.evaluate_sub (Expr.evaluate_long 7) (evaluate_daysIntoWeek day on)]
    exact_mod_cast rfl
  refine ⟨_, _, ?_, amount, by omega, by omega, ?_, day.isLeast_next d⟩
  · rw [expand, weekday_of_isSpelled literal spelled]
    rfl
  · exact Expr.evaluate_dateAdd (Expr.evaluate_castDate on) amount

/-- The last day of 1969 was a Wednesday, and the next one was the seventh of January. -/
theorem evaluate_nextDay_of_last_day_of_1969 :
    ∃ tree, expand .nextDay [.ofValue (.date ⟨1969, 12, 31, by decide⟩), .text "wEd"] =
        .done tree ∧
      tree.evaluate (fun _ => none) =
        some (.date (Date.mk 1970 1 7 (by decide)).dayNumber) := by
  have letters : "wEd".toLower = "WED".toLower := by
    show "wEd".map Char.toLower = "WED".map Char.toLower
    simp [← String.toList_inj]
  have spelled : Weekday.wednesday.IsSpelled "wEd" := ⟨"WED", by simp [Weekday.spellings], letters⟩
  have on : (Expr.ofValue (.date ⟨1969, 12, 31, by decide⟩)).FallsOn (fun _ => none) (-1) :=
    ⟨_, rfl, rfl⟩
  obtain ⟨amount, days, stands, -, low, high, value, ⟨-, falls⟩, -⟩ :=
    evaluate_nextDay (w := .text "wEd") _ rfl spelled on
  have week : days = 7 := by
    rw [Weekday.ofDay_eq_iff] at falls
    change (-1 + days) % 7 = 6 at falls
    omega
  rw [week] at value
  exact ⟨_, stands, value⟩

/-- The weeks between two dates, counted by the weekday on which they begin. For every spelling of
the weekday the value of the call is the number of dates on the weekday after the one date and up to
the other; it is negative if the first argument is the earlier date. -/
theorem evaluate_weekDiff (given : Expr → Option Quantity) {x y w : Expr} {name : String}
    {day : Weekday} {stop start : Int} (literal : w.stringLiteral? = some name)
    (spelled : day.IsSpelled name) (later : x.FallsOn given stop)
    (earlier : y.FallsOn given start) :
    ∃ tree, expand .weekDiff [x, y, w] = .done tree ∧
      tree.evaluate given = some (.number
        (if start ≤ stop then (day.countBetween start stop : ℚ)
        else -(day.countBetween stop start : ℚ))) := by
  refine ⟨weekDiff day x y, ?_, ?_⟩
  · rw [expand, weekday_of_isSpelled literal spelled]
    rfl
  · rw [weekDiff,
      Expr.evaluate_sub (evaluate_weekNumber day later) (evaluate_weekNumber day earlier)]
    split_ifs with order
    · have count := day.countBetween_eq order
      have cast : (day.countBetween start stop : ℚ) =
          ((stop - day.offset) / 7 - (start - day.offset) / 7 : Int) := mod_cast count
      rw [cast, Int.cast_sub]
    · have count := day.countBetween_eq (Int.le_of_lt (Int.not_le.mp order))
      have cast : (day.countBetween stop start : ℚ) =
          ((start - day.offset) / 7 - (stop - day.offset) / 7 : Int) := mod_cast count
      rw [cast, Int.cast_sub, neg_sub]

/-- From the fifth of January 1970 back to the twentieth of December there are three Sundays. -/
theorem evaluate_weekDiff_of_turn_of_year :
    ∃ tree, expand .weekDiff [.ofValue (.date ⟨1969, 12, 20, by decide⟩),
        .ofValue (.date ⟨1970, 1, 5, by decide⟩), .text "Sunday"] = .done tree ∧
      tree.evaluate (fun _ => none) = some (.number (-3)) := by
  have letters : "Sunday".toLower = "SUNDAY".toLower := by
    show "Sunday".map Char.toLower = "SUNDAY".map Char.toLower
    simp [← String.toList_inj]
  have spelled : Weekday.sunday.IsSpelled "Sunday" :=
    ⟨"SUNDAY", by simp [Weekday.spellings], letters⟩
  have stop : (Expr.ofValue (.date ⟨1969, 12, 20, by decide⟩)).FallsOn (fun _ => none) (-12) :=
    ⟨_, rfl, rfl⟩
  have start : (Expr.ofValue (.date ⟨1970, 1, 5, by decide⟩)).FallsOn (fun _ => none) 4 :=
    ⟨_, rfl, rfl⟩
  have sundays : (Weekday.sunday.countBetween (-12) 4 : Int) = 3 := by
    rw [Weekday.countBetween_eq .sunday (by decide)]
    rfl
  have cast : (Weekday.sunday.countBetween (-12) 4 : ℚ) = 3 := mod_cast sundays
  obtain ⟨tree, stands, value⟩ := evaluate_weekDiff (w := .text "Sunday") _ rfl spelled stop start
  rw [if_neg (by decide), cast] at value
  exact ⟨tree, stands, value⟩

end Composite

end SqlLowering
