import Mathlib.Data.List.Basic
import Mathlib.Tactic.SplitIfs
import SqlLowering.Calendar.Timestamp
import SqlLowering.Number.Decimal

/-!
# Numbers, decimals, dates and timestamps read back from their texts

A run of digits is read to its end if no digit follows it, so each of the three texts is taken apart
at its signs, points and dividers. A year has as many digits as it needs, a fraction of a second has
three, six or nine, and a decimal has all digits of its scale, the trailing zeros among them.

Main statements: `Decimal.parse?_text`, `Date.parse?_text` and `Timestamp.parse?_text`. Reading
drops the sign of a decimal zero, so a decimal is read back as `Decimal.plainZero`.
-/

namespace SqlLowering

namespace Text

/-! ## Runs of digits -/

variable {c : Char} {ds rest : List Char} {width most n : Nat}

/-- A number is written in digits only. -/
theorem isDigit_of_mem_digits (mem : c ∈ digits n) : c.isDigit = true :=
  Nat.isDigit_of_mem_toDigits (by decide) (by decide) mem

/-- A number has a first digit, also when it is zero. -/
theorem exists_digits_eq_cons (n : Nat) : ∃ c cs, digits n = c :: cs ∧ c.isDigit = true := by
  cases shape : digits n with
  | nil => exact absurd shape Nat.toDigits_ne_nil
  | cons c cs =>
      have mem : c ∈ digits n := by
        rw [shape]
        exact List.mem_cons_self
      exact ⟨c, cs, rfl, isDigit_of_mem_digits mem⟩

theorem eq_zero_of_digitChar : ∀ n < 10, n.digitChar = '0' → n = 0 := by
  decide

/-- Only zero is written with a zero in front. -/
theorem eq_zero_of_digits (n : Nat) : ∀ {cs : List Char}, digits n = '0' :: cs → n = 0 := by
  induction n using Nat.strongRecOn with
  | ind n ih =>
      intro cs shape
      by_cases small : n < 10
      · rw [digits, Nat.toDigits_of_lt_base small] at shape
        exact eq_zero_of_digitChar n small (List.cons.inj shape).1
      · rw [digits, Nat.toDigits_of_base_le (by decide) (by omega)] at shape
        obtain ⟨c, ds, front, -⟩ := exists_digits_eq_cons (n / 10)
        rw [← digits, front, List.cons_append] at shape
        obtain ⟨rfl, -⟩ := List.cons.inj shape
        have zero := ih (n / 10) (by omega) front
        omega

/-- Zeros in front are digits too. -/
theorem isDigit_of_mem_padded (mem : c ∈ padded width n) : c.isDigit = true := by
  rw [padded, List.mem_append] at mem
  rcases mem with mem | mem
  · rw [List.eq_of_mem_replicate mem]
    rfl
  · exact isDigit_of_mem_digits mem

theorem padded_ne_nil (width n : Nat) : padded width n ≠ [] := by
  rw [padded]
  exact List.append_ne_nil_of_right_ne_nil _ Nat.toDigits_ne_nil

/-- Zeros in front do not count. -/
theorem ofDigits_padded (width n : Nat) : ofDigits (padded width n) = n := by
  have zeros (k : Nat) : Nat.ofDigitChars 10 (List.replicate k '0') 0 = 0 := by
    induction k with
    | zero => rfl
    | succ k ih => exact ih
  rw [padded, ofDigits, Nat.ofDigitChars_append, zeros]
  exact ofDigits_digits n

/-- Padding reaches the width, and a longer number is not cut. -/
theorem width_le_length_padded (width n : Nat) : width ≤ (padded width n).length := by
  rw [padded, List.length_append, List.length_replicate]
  omega

/-- A number that fits has exactly the width. -/
theorem length_padded (positive : 0 < width) (fits : n < Nat.pow 10 width) :
    (padded width n).length = width := by
  have short : (digits n).length ≤ width :=
    (Nat.length_toDigits_le_iff (by decide) positive).mpr fits
  rw [padded, List.length_append, List.length_replicate]
  omega

/-- No digit stands at the front. -/
def NoDigit (cs : List Char) : Prop :=
  ∀ c ∈ cs.head?, c.isDigit = false

theorem NoDigit.nil : NoDigit [] := by
  intro c mem
  cases mem

theorem NoDigit.cons (h : c.isDigit = false) : NoDigit (c :: rest) := by
  intro d mem
  cases mem
  exact h

/-- A run of digits is read to its end. -/
theorem readDigits_append (digit : ∀ c ∈ ds, c.isDigit = true) (filled : ds ≠ [])
    (short : ds.length ≤ most) (ends : NoDigit rest) :
    readDigits most (ds ++ rest) = some (ds, rest) := by
  have stop : (rest.take (most - ds.length)).takeWhile Char.isDigit = [] := by
    cases rest with
    | nil => simp
    | cons c cs =>
        have other : c.isDigit = false := ends c rfl
        cases most - ds.length with
        | zero => rfl
        | succ k => simp [other]
  have run : ((ds ++ rest).take most).takeWhile Char.isDigit = ds := by
    rw [List.take_append, List.take_of_length_le short, List.takeWhile_append_of_pos digit, stop,
      List.append_nil]
  rw [readDigits, run]
  cases ds with
  | nil => exact absurd rfl filled
  | cons c cs => simp

/-- A padded number is read back up to the first character that is no digit. -/
theorem readNat_padded (short : (padded width n).length ≤ most) (ends : NoDigit rest) :
    readNat most (padded width n ++ rest) = some (n, rest) := by
  have run := readDigits_append (fun c => isDigit_of_mem_padded) (padded_ne_nil _ _) short ends
  simp [readNat, run, ofDigits_padded]

/-- A number of a fixed width is read back. -/
theorem readNat_width (positive : 0 < width) (fits : n < Nat.pow 10 width) (ends : NoDigit rest) :
    readNat width (padded width n ++ rest) = some (n, rest) :=
  readNat_padded (Nat.le_of_eq (length_padded positive fits)) ends

/-- A digit is no blank. -/
theorem not_isBlank_of_isDigit (h : c.isDigit = true) : isBlank c = false := by
  have bounds : 48 ≤ c.toNat ∧ c.toNat ≤ 57 := by
    simpa [Char.isDigit, UInt32.le_iff_toNat_le] using h
  simp only [isBlank, Bool.or_eq_false_iff, Bool.and_eq_false_iff, decide_eq_false_iff_not,
    beq_eq_false_iff_ne]
  omega

theorem skipBlanks_cons (h : isBlank c = false) : skipBlanks (c :: rest) = c :: rest :=
  List.dropWhile_cons_of_neg (by simp [h])

/-- A padded number begins with a digit, whether it was padded or not. -/
theorem exists_padded_eq_cons (width n : Nat) :
    ∃ c cs, padded width n = c :: cs ∧ c.isDigit = true := by
  rw [padded]
  cases width - (digits n).length with
  | zero => exact exists_digits_eq_cons n
  | succ k => exact ⟨'0', _, rfl, rfl⟩

/-- There are no blanks to skip before a number. -/
theorem skipBlanks_padded (width n : Nat) (rest : List Char) :
    skipBlanks (padded width n ++ rest) = padded width n ++ rest := by
  obtain ⟨c, cs, shape, digit⟩ := exists_padded_eq_cons width n
  rw [shape]
  exact skipBlanks_cons (not_isBlank_of_isDigit digit)

/-- Two digits are read back; the blanks that may stand before them are not there. -/
theorem readNat_two (fits : n < 100) (ends : NoDigit rest) :
    readNat 2 (skipBlanks (padded 2 n ++ rest)) = some (n, rest) := by
  rw [skipBlanks_padded]
  exact readNat_width (by decide) fits ends

end Text

/-! ## Dates and timestamps -/

namespace Calendar

open Text

variable {rest : List Char} {month : Nat}

/-- Only twelve months have days, so the month of a date has at most two digits. -/
theorem month_le_of_daysInMonth {year : Int} (h : 1 ≤ daysInMonth year month) : month ≤ 12 := by
  by_contra outside
  have dayless : daysInMonth year month = 0 := by
    unfold daysInMonth
    split <;> first | rfl | omega
  omega

/-- No month has more than 31 days, so the day of a date has at most two digits. -/
theorem daysInMonth_le (year : Int) (month : Nat) : daysInMonth year month ≤ 31 := by
  unfold daysInMonth
  split
  case h_12 => split <;> decide
  all_goals decide

namespace Date

theorem month_lt (d : Date) : d.month < 100 := by
  obtain ⟨-, -, first, last⟩ := d.isDay
  have bound := month_le_of_daysInMonth (Nat.le_trans first last)
  omega

theorem day_lt (d : Date) : d.day < 100 := by
  obtain ⟨-, -, -, last⟩ := d.isDay
  have bound := daysInMonth_le d.year d.month
  omega

/-- A year begins with a digit or a sign. -/
theorem skipBlanks_yearText (year : Int) (rest : List Char) :
    skipBlanks (yearText year ++ rest) = yearText year ++ rest := by
  rw [yearText]
  split
  · exact skipBlanks_padded _ _ _
  · split <;> exact skipBlanks_cons (by decide)

/-- A year is read back: after a sign with all its digits, and without a sign it has four. -/
theorem readYear_yearText (year : Int) (ends : NoDigit rest) :
    readYear (yearText year ++ rest) = some (year, rest) := by
  have signed : readNat (padded 4 year.natAbs ++ rest).length (padded 4 year.natAbs ++ rest) =
      some (year.natAbs, rest) := by
    refine readNat_padded ?_ ends
    rw [List.length_append]
    omega
  rw [yearText]
  split
  case isTrue bounds =>
    have small : year.natAbs < 10000 := by omega
    have plain : readNat 4 (padded 4 year.natAbs ++ rest) = some (year.natAbs, rest) :=
      readNat_width (by decide) small ends
    obtain ⟨c, cs, shape, digit⟩ := exists_padded_eq_cons 4 year.natAbs
    rw [shape, List.cons_append] at plain ⊢
    unfold readYear
    split
    case h_1 same => cases same; exact absurd digit (by decide)
    case h_2 same => cases same; exact absurd digit (by decide)
    case h_3 =>
      have same : (year.natAbs : Int) = year := by omega
      rw [plain]
      exact congrArg (fun y => some (y, rest)) same
  case isFalse outside =>
    split
    case isTrue below =>
      have same : -(year.natAbs : Int) = year := by omega
      rw [List.cons_append, readYear, signed]
      exact congrArg (fun y => some (y, rest)) same
    case isFalse =>
      have same : (year.natAbs : Int) = year := by omega
      rw [List.cons_append, readYear, signed]
      exact congrArg (fun y => some (y, rest)) same

/-- A date is read back from the front of a text. -/
theorem read_chars (d : Date) (ends : NoDigit rest) :
    read (d.chars ++ rest) = some (d, skipBlanks rest) := by
  have hyphen (cs : List Char) : NoDigit ('-' :: cs) := .cons (by decide)
  have whole : ofParts? d.year d.month d.day = some d := dif_pos d.isDay
  simp only [read, chars, List.append_assoc, List.cons_append, skipBlanks_yearText]
  refine Option.bind_eq_some_iff.mpr ⟨_, readYear_yearText d.year (hyphen _), ?_⟩
  refine Option.bind_eq_some_iff.mpr ⟨_, rfl, ?_⟩
  refine Option.bind_eq_some_iff.mpr ⟨_, readNat_two d.month_lt (hyphen _), ?_⟩
  refine Option.bind_eq_some_iff.mpr ⟨_, rfl, ?_⟩
  refine Option.bind_eq_some_iff.mpr ⟨_, readNat_two d.day_lt ends, ?_⟩
  exact Option.bind_eq_some_iff.mpr ⟨_, whole, rfl⟩

/-- A date is read back from its whole text. -/
theorem parse?_text (d : Date) : parse? d.text = some d := by
  have read := d.read_chars .nil
  rw [List.append_nil] at read
  rw [parse?, text, String.toList_ofList, read]
  rfl

end Date

namespace Timestamp

/-- A fraction with fewer than nine digits counts from the left, so it is read as if zeros followed.
-/
theorem readFraction_padded {width n : Nat} (positive : 0 < width) (short : width ≤ 9)
    (fits : n < Nat.pow 10 width) :
    readFraction ('.' :: padded width n) = some (n * Nat.pow 10 (9 - width), []) := by
  have count : (padded width n).length = width := length_padded positive fits
  have run : readDigits 9 (padded width n ++ []) = some (padded width n, []) :=
    readDigits_append (fun c => isDigit_of_mem_padded) (padded_ne_nil width n) (by omega) .nil
  rw [List.append_nil] at run
  simp only [readFraction, run, Option.bind_eq_bind, Option.bind_some, ofDigits_padded, count]
  rfl

/-- A fraction is read back: the groups of digits that are left out are zero. -/
theorem readFraction_fractionText {nanos : Nat} (bound : nanos < 1000000000) :
    readFraction (fractionText nanos) = some (nanos, []) := by
  rw [fractionText]
  split
  case isTrue zero => rw [zero]; rfl
  case isFalse =>
    split
    case isTrue millis =>
      have small : nanos / 1000000 < 1000 := by omega
      rw [readFraction_padded (by decide) (by decide) small]
      exact congrArg (fun n => some (n, [])) (Nat.div_mul_cancel (Nat.dvd_of_mod_eq_zero millis))
    case isFalse =>
      split
      case isTrue micros =>
        have small : nanos / 1000 < 1000000 := by omega
        rw [readFraction_padded (by decide) (by decide) small]
        exact congrArg (fun n => some (n, [])) (Nat.div_mul_cancel (Nat.dvd_of_mod_eq_zero micros))
      case isFalse =>
        rw [readFraction_padded (by decide) (by decide) bound]
        exact congrArg (fun n => some (n, [])) (Nat.mul_one nanos)

/-- A fraction begins with a point, or is not there at all, so the seconds before it end. -/
theorem noDigit_fractionText (nanos : Nat) : NoDigit (fractionText nanos) := by
  rw [fractionText]
  split_ifs
  · exact .nil
  all_goals exact .cons (by decide)

/-- A timestamp is read back from its text, part by part from the date to the fraction. -/
theorem parse?_text (t : Timestamp) : parse? t.text = some t := by
  obtain ⟨hours, minutes, seconds, bound⟩ := t.isTime
  have colon (cs : List Char) : NoDigit (':' :: cs) := .cons (by decide)
  have whole : ofParts? t.date t.hour t.minute t.second t.nanos = some t := dif_pos t.isTime
  have chars : t.text.toList = t.date.chars ++ 'T' :: (padded 2 t.hour ++ ':' ::
      (padded 2 t.minute ++ ':' :: (padded 2 t.second ++ fractionText t.nanos))) := by
    simp only [text, textWith, String.toList_ofList, List.append_assoc, List.cons_append]
  rw [parse?, chars]
  refine Option.bind_eq_some_iff.mpr ⟨_, t.date.read_chars (.cons (by decide)), ?_⟩
  refine Option.bind_eq_some_iff.mpr ⟨_, rfl, ?_⟩
  refine Option.bind_eq_some_iff.mpr ⟨_, readNat_two (n := t.hour) (by omega) (colon _), ?_⟩
  refine Option.bind_eq_some_iff.mpr ⟨_, rfl, ?_⟩
  refine Option.bind_eq_some_iff.mpr ⟨_, readNat_two (n := t.minute) (by omega) (colon _), ?_⟩
  refine Option.bind_eq_some_iff.mpr ⟨_, rfl, ?_⟩
  refine Option.bind_eq_some_iff.mpr
    ⟨_, readNat_two (n := t.second) (by omega) (noDigit_fractionText t.nanos), ?_⟩
  refine Option.bind_eq_some_iff.mpr ⟨_, readFraction_fractionText bound, ?_⟩
  exact Option.bind_eq_some_iff.mpr ⟨(), rfl, whole⟩

end Timestamp

end Calendar

/-! ## Decimals -/

namespace Number.Decimal

open Text

/-- The decimal without the sign of a negative zero. -/
def plainZero (d : Decimal) : Decimal :=
  { d with negative := d.negative && d.size != 0 }

/-- Nothing changes unless there is a negative zero. -/
theorem plainZero_eq_iff {d : Decimal} : d.plainZero = d ↔ (d.negative = true → d.size ≠ 0) := by
  obtain ⟨negative, size, scale, fits, places⟩ := d
  cases negative <;> simp [plainZero]

namespace Progress

/-- More digits make no number smaller, so if the whole fits, each beginning fits. -/
theorem le_ofDigitChars (ds : List Char) (n : Nat) : n ≤ Nat.ofDigitChars 10 ds n := by
  induction ds generalizing n with
  | nil => exact Nat.le_refl n
  | cons c ds ih =>
      rw [Nat.ofDigitChars_cons]
      have more := ih (10 * n + (c.toNat - '0'.toNat))
      omega

/-- The progress `q` is what `p` becomes by some digits. -/
structure Grown (p : Progress) (ds : List Char) (q : Progress) : Prop where
  size : q.size = Nat.ofDigitChars 10 ds p.size
  scale : q.scale = if p.point then p.scale + ds.length else p.scale
  point : q.point = p.point
  seen : q.seen = (p.seen || !ds.isEmpty)

/-- Digits that fit are read one by one. -/
theorem exists_grown {p : Progress} {ds : List Char} (rest : List Char)
    (digit : ∀ c ∈ ds, c.isDigit = true) (room : p.point = true → p.scale + ds.length ≤ maxScale)
    (fits : Nat.ofDigitChars 10 ds p.size < sizeBound) :
    ∃ q, Grown p ds q ∧ p.read (ds ++ rest) = q.read rest := by
  induction ds generalizing p with
  | nil => exact ⟨p, ⟨rfl, by simp, rfl, by simp⟩, rfl⟩
  | cons c ds ih =>
      let grown := p.size * 10 + Text.ofDigits [c]
      have value : Nat.ofDigitChars 10 (c :: ds) p.size = Nat.ofDigitChars 10 ds grown := by
        simp [grown, ofDigits, Nat.ofDigitChars_cons, Nat.mul_comm]
      rw [value] at fits
      have small : grown < sizeBound := Nat.lt_of_le_of_lt (le_ofDigitChars ds grown) fits
      have free : p.isFull = false := by
        by_cases h : p.point = true
        · have places := room h
          rw [List.length_cons] at places
          simp [isFull, h]
          omega
        · simp [isFull, h]
      have step : p.read (c :: ds ++ rest) = (p.grow grown).read (ds ++ rest) := by
        rw [List.cons_append, read, free, digit c List.mem_cons_self]
        simp only [grown] at small ⊢
        simp [small]
      have room' (h : (p.grow grown).point = true) :
          (p.grow grown).scale + ds.length ≤ maxScale := by
        have places := room h
        have point : p.point = true := h
        rw [List.length_cons] at places
        simp only [grow, point, if_true]
        omega
      obtain ⟨q, ⟨size, scale, point, seen⟩, run⟩ :=
        ih (fun d mem => digit d (List.mem_cons_of_mem c mem)) room' fits
      refine ⟨q, ⟨?_, ?_, point, ?_⟩, step.trans run⟩
      · rw [size, value]
        rfl
      · rw [scale]
        by_cases h : p.point = true <;> simp [grow, h, Nat.add_assoc, Nat.add_comm 1]
      · rw [seen]
        simp [grow]

/-- The digits before and after a point are read into one size, those after it into the scale. -/
theorem read_point {whole fraction : List Char} (digit : ∀ c ∈ whole ++ fraction, c.isDigit = true)
    (filled : whole ≠ []) (places : fraction.length ≤ maxScale)
    (fits : ofDigits (whole ++ fraction) < sizeBound) :
    read {} (whole ++ '.' :: fraction) = some (ofDigits (whole ++ fraction), fraction.length) := by
  have value : ofDigits (whole ++ fraction) =
      Nat.ofDigitChars 10 fraction (Nat.ofDigitChars 10 whole 0) := Nat.ofDigitChars_append 0
  rw [value] at fits ⊢
  obtain ⟨q, ⟨size, scale, point, seen⟩, first⟩ := exists_grown (p := {}) ('.' :: fraction)
    (fun c mem => digit c (List.mem_append_left _ mem)) (by simp)
    (Nat.lt_of_le_of_lt (le_ofDigitChars _ _) fits)
  obtain ⟨r, ⟨size', scale', -, seen'⟩, second⟩ := exists_grown (p := { q with point := true }) []
    (fun c mem => digit c (List.mem_append_right _ mem)) (by simpa [scale] using places)
    (by simpa [size] using fits)
  rw [List.append_nil] at second
  have passes : q.read ('.' :: fraction) = read { q with point := true } fraction := by
    rw [read]
    simp [isFull, point]
  rw [first, passes, second, read]
  simp [size', size, scale', scale, seen', seen, filled]

/-- Without a point the scale is zero. -/
theorem read_whole {ds : List Char} (digit : ∀ c ∈ ds, c.isDigit = true) (filled : ds ≠ [])
    (fits : ofDigits ds < sizeBound) : read {} ds = some (ofDigits ds, 0) := by
  obtain ⟨q, ⟨size, scale, -, seen⟩, run⟩ := exists_grown (p := {}) [] digit (by simp) fits
  rw [List.append_nil] at run
  rw [run, read]
  simp [size, scale, seen, filled, ofDigits]

end Progress

/-- After the sign, the text begins with a digit and is read as the size and the scale. -/
theorem exists_body (d : Decimal) : ∃ c cs, c.isDigit = true ∧
    d.text.toList = (if d.negative then ['-'] else []) ++ c :: cs ∧
    Progress.read {} (c :: cs) = some (d.size, d.scale) := by
  let ds := padded (d.scale + 1) d.size
  have long : d.scale + 1 ≤ ds.length := width_le_length_padded _ _
  have size : ofDigits ds = d.size := ofDigits_padded _ _
  generalize before : ds.take (ds.length - d.scale) = whole
  generalize after : ds.drop (ds.length - d.scale) = fraction
  have join : whole ++ fraction = ds := by
    rw [← before, ← after, List.take_append_drop]
  have places : fraction.length = d.scale := by
    rw [← after, List.length_drop]
    omega
  have digit : ∀ c ∈ whole ++ fraction, c.isDigit = true := by
    rw [join]
    exact fun c => isDigit_of_mem_padded
  have fits : ofDigits (whole ++ fraction) < sizeBound := by
    rw [join, size]
    exact d.size_lt
  have text : d.text.toList = (if d.negative then ['-'] else []) ++
      (if d.scale = 0 then whole else whole ++ '.' :: fraction) := by
    rw [← before, ← after, Decimal.text, String.toList_append, String.toList_ofList]
    cases d.negative <;> rfl
  cases whole with
  | nil =>
      have lengths := congrArg List.length join
      simp only [List.nil_append] at lengths
      omega
  | cons c cs =>
      by_cases h : d.scale = 0
      · have integral : fraction = [] := List.length_eq_zero_iff.mp (places.trans h)
        rw [integral, List.append_nil] at join digit fits
        refine ⟨c, cs, digit c List.mem_cons_self, by rw [text, if_pos h], ?_⟩
        rw [Progress.read_whole digit (List.cons_ne_nil c cs) fits, join, size, h]
      · refine ⟨c, cs ++ '.' :: fraction, digit c (by simp), by rw [text, if_neg h]; rfl, ?_⟩
        have run := Progress.read_point digit (List.cons_ne_nil c cs) (places ▸ d.scale_le) fits
        rwa [join, size, places] at run

/-- A decimal is read back with its trailing zeros, as they are part of its scale; only the sign of
a zero is dropped. -/
theorem parse?_text (d : Decimal) : parse? d.text = some d.plainZero := by
  obtain ⟨c, cs, digit, shape, body⟩ := d.exists_body
  have whole : ofParts? d.negative d.size d.scale = some d.plainZero :=
    dif_pos ⟨d.size_lt, d.scale_le⟩
  have plain : readPlain? d.text.toList = some d.plainZero := by
    rw [shape, ← whole]
    cases d.negative with
    | true => simp [readPlain?, body]
    | false =>
        have minus : c ≠ '-' := by rintro rfl; exact absurd digit (by decide)
        have plus : c ≠ '+' := by rintro rfl; exact absurd digit (by decide)
        simp [readPlain?, body, minus, plus]
  rw [parse?, plain]
  rfl

end Number.Decimal

end SqlLowering
