import SqlLowering.Proofs.DecimalTypes
import SqlLowering.Proofs.FrameTexts
import SqlLowering.Proofs.SafeText

/-!
# Literals that tell values apart

Two values of one kind have one literal only if they are one value. A bound value is found among
the parameters. A number is found in the text: its digits have no space in them, so it is a word of
its own or ends one, whatever the type is that stands after it. A decimal is found with its trailing
zeros and the sign of its zero. An interval is an amount of one unit, from which its three parts are
known. The interval of nothing is written in days, and an amount of zero has no other unit.

Main statement: `Literal.encode_render_eq_iff`.
-/

namespace SqlLowering

open Text

/-! ## Numbers -/

namespace Text

/-- A number is read from its text, so no two numbers have one text. -/
theorem natText_injective : Function.Injective natText := by
  intro m n same
  have read := unsigned?_natText m
  rw [same, unsigned?_natText] at read
  exact (Option.some.inj read).symm

/-- The sign tells numbers of one size apart, as the text of a size begins with a digit. -/
theorem intText_injective : Function.Injective intText := by
  have sign (m n : Nat) : "-" ++ natText m ≠ natText n := by
    intro same
    have mem : '-' ∈ (natText n).toList := by
      simp [← same]
    exact not_mem_natText n rfl mem
  intro i j same
  rw [intText, intText] at same
  split_ifs at same with left right right
  · have sizes := natText_injective ((String.append_right_inj "-").mp same)
    omega
  · exact absurd same (sign _ _)
  · exact absurd same.symm (sign _ _)
  · have sizes := natText_injective same
    omega

/-- An amount is one word. -/
theorem space_not_mem_intText (i : Int) : ' ' ∉ (intText i).toList := by
  have digits := not_mem_natText i.natAbs (c := ' ') rfl
  rw [intText]
  split
  · simpa using digits
  · exact digits

end Text

namespace Number.Decimal

/-- A decimal is one word: its text has digits, a point and a sign. -/
theorem space_not_mem_text (d : Decimal) : ' ' ∉ d.text.toList := by
  obtain ⟨body, numeric, shape⟩ := d.exists_numeric
  rw [shape, List.mem_append]
  rintro (sign | mem)
  · split at sign <;> simp at sign
  · exact absurd (List.all_eq_true.mp numeric _ mem) (by decide)

/-- The sign is the first character of the text, which is a digit otherwise. -/
theorem negative_eq (d : Decimal) : d.negative = (d.text.toList.head? == some '-') := by
  obtain ⟨c, cs, digit, shape, -⟩ := d.exists_body
  rw [shape]
  cases d.negative with
  | true => rfl
  | false =>
      have other : c ≠ '-' := by
        rintro rfl
        cases digit
      simp [other]

/-- The text shows the size and the scale, and the sign of zero as well. -/
theorem text_injective : Function.Injective text := by
  intro d e same
  have sign : d.negative = e.negative := by
    rw [negative_eq, negative_eq, same]
  have read := d.parse?_text
  rw [same, e.parse?_text] at read
  have plain := Option.some.inj read
  have size : d.size = e.size := (congrArg Decimal.size plain).symm
  have scale : d.scale = e.scale := (congrArg Decimal.scale plain).symm
  cases d
  cases e
  rw [mk.injEq]
  exact ⟨sign, size, scale⟩

end Number.Decimal

/-! ## Values -/

/-- Two values of one kind, which is not one of the approximate numbers. -/
inductive Value.SameKind : Value → Value → Prop
  | null : SameKind .null .null
  | bool (a b : Bool) : SameKind (.bool a) (.bool b)
  | byte (m n : Int8) : SameKind (.byte m) (.byte n)
  | short (m n : Int16) : SameKind (.short m) (.short n)
  | int (m n : Int32) : SameKind (.int m) (.int n)
  | long (m n : Int64) : SameKind (.long m) (.long n)
  | decimal (d e : Number.Decimal) : SameKind (.decimal d) (.decimal e)
  | string (s t : String) : SameKind (.string s) (.string t)
  | binary (xs ys : List UInt8) : SameKind (.binary xs) (.binary ys)
  | date (d e : Calendar.Date) : SameKind (.date d) (.date e)
  | timestamp (s t : Calendar.Timestamp) : SameKind (.timestamp s) (.timestamp t)
  | interval (months days : Int32) (micros : Int64) (months' days' : Int32) (micros' : Int64) :
      SameKind (.interval months days micros) (.interval months' days' micros')

namespace Literal

variable {v w : Value} {t : DataType} {f g : Fragment}

/-- A bound value is the one parameter of its fragment. -/
theorem eq_of_render_bind (same : (Fragment.bind v t).render = (Fragment.bind w t).render) :
    v = w := by
  have params : [Parameter.mk v t] = [⟨w, t⟩] := congrArg Rendered.params same
  exact congrArg Parameter.value (List.cons.inj params).1

/-- The digits of a decimal end the first word of its literal. -/
theorem head?_wordsOf_ofDecimal (d : Number.Decimal) (t : DataType) :
    (wordsOf (ofDecimal d t).sql).head? = some ("CAST(" ++ d.text) := by
  have single : ' ' ∉ ("CAST(" ++ d.text).toList := by
    simpa using d.space_not_mem_text
  obtain ⟨type, shape⟩ : ∃ type : Fragment, ofDecimal d t =
      .join [.raw "CAST(", .decimal d, .raw " AS ", type, .raw ")"] "" := by
    cases t <;> exact ⟨_, rfl⟩
  have text : (ofDecimal d t).sql =
      "CAST(" ++ d.text ++ " " ++ ("AS " ++ type.sql ++ ")") := by
    rw [shape, sql_castAs_decimal]
    simp only [String.append_assoc]
    rfl
  rw [text, wordsOf_append single, List.head?_cons]

/-- The first word of the literal shows the digits, which show the decimal. -/
theorem eq_of_sql_ofDecimal {d e : Number.Decimal}
    (same : (ofDecimal d t).sql = (ofDecimal e t).sql) : d = e := by
  have first := head?_wordsOf_ofDecimal d t
  rw [same, head?_wordsOf_ofDecimal, Option.some.injEq, String.append_right_inj] at first
  exact (Number.Decimal.text_injective first).symm

/-! ## Intervals -/

/-- The interval of an amount of one unit. -/
def intervalIn (unit : String) (amount : Int) : Value :=
  if unit = "MONTH" then .interval (.ofInt amount) 0 0
  else if unit = "DAY" then .interval 0 (.ofInt amount) 0
  else .interval 0 0 (.ofInt amount)

/-- The three parts of an interval are known from the unit and the amount that are written. -/
theorem exists_intervalIn {months days : Int32} {micros : Int64}
    (h : ofInterval? months days micros = some f) :
    ∃ unit amount, ' ' ∉ unit.toList ∧ f = intervalOf amount unit ∧
      .interval months days micros = intervalIn unit amount := by
  rw [ofInterval?] at h
  split_ifs at h with month day micro
  · obtain ⟨rfl, rfl, -⟩ := month
    refine ⟨"MONTH", months.toInt, by decide, (Option.some.inj h).symm, ?_⟩
    rw [intervalIn, if_pos rfl, Int32.ofInt_toInt]
  · obtain ⟨rfl, rfl⟩ := day
    refine ⟨"DAY", days.toInt, by decide, (Option.some.inj h).symm, ?_⟩
    rw [intervalIn, if_neg (by decide), if_pos rfl, Int32.ofInt_toInt]
  · obtain ⟨rfl, rfl⟩ := micro
    refine ⟨"MICROSECOND", micros.toInt, by decide, (Option.some.inj h).symm, ?_⟩
    rw [intervalIn, if_neg (by decide), if_neg (by decide), Int64.ofInt_toInt]

/-- An interval is written in three words, the last two of which tell amount and unit. -/
theorem wordsOf_intervalOf (amount : Int) {unit : String} (single : ' ' ∉ unit.toList) :
    wordsOf (intervalOf amount unit).sql = ["INTERVAL", intText amount, unit] := by
  have text : (intervalOf amount unit).sql =
      "INTERVAL" ++ " " ++ (intText amount ++ " " ++ unit) := by
    rw [intervalOf, Fragment.sql_words]
    simp only [String.append_assoc]
    rfl
  rw [text, wordsOf_append (by decide), wordsOf_append (space_not_mem_intText amount),
    wordsOf_of_not_mem single]

/-- The words show unit and amount, and these are all that an interval has. -/
theorem eq_of_sql_ofInterval? {months days months' days' : Int32} {micros micros' : Int64}
    (left : ofInterval? months days micros = some f)
    (right : ofInterval? months' days' micros' = some g) (same : f.sql = g.sql) :
    Value.interval months days micros = .interval months' days' micros' := by
  obtain ⟨unit, amount, single, rfl, value⟩ := exists_intervalIn left
  obtain ⟨unit', amount', single', rfl, value'⟩ := exists_intervalIn right
  have words : ["INTERVAL", intText amount, unit] = ["INTERVAL", intText amount', unit'] := by
    rw [← wordsOf_intervalOf amount single, ← wordsOf_intervalOf amount' single', same]
  simp only [List.cons.injEq, true_and, and_true] at words
  rw [value, value', intText_injective words.1, words.2]

/-! ## Literals -/

/-- Literals tell values apart. Under one declared type, two values of one kind that are not
approximate numbers render to the same text with the same parameters only if they are equal. -/
theorem encode_render_eq_iff (kind : v.SameKind w) (left : encode v t = some f)
    (right : encode w t = some g) : f.render = g.render ↔ v = w := by
  constructor
  · intro same
    have text : f.sql = g.sql := congrArg Rendered.sql same
    cases kind with
    | null => rfl
    | bool a b =>
        have words : ("TRUE" : String) ≠ "FALSE" := by decide
        cases a <;> cases b <;> cases left <;> cases right
        · rfl
        · exact absurd text.symm words
        · exact absurd text words
        · rfl
    | byte m n =>
        cases left
        cases right
        rw [Int8.toInt_inj.mp (intText_injective text)]
    | short m n =>
        cases left
        cases right
        rw [Int16.toInt_inj.mp (intText_injective text)]
    | int m n =>
        cases left
        cases right
        rw [Int32.toInt_inj.mp (intText_injective text)]
    | long m n =>
        cases left
        cases right
        rw [Int64.toInt_inj.mp (intText_injective text)]
    | decimal d e =>
        cases left
        cases right
        rw [eq_of_sql_ofDecimal text]
    | string | binary | date | timestamp =>
        cases left
        cases right
        exact eq_of_render_bind same
    | interval => exact eq_of_sql_ofInterval? left right text
  · rintro rfl
    rw [Option.some.inj (left.symm.trans right)]

/-- A trailing zero is written, and a month is not a day. -/
theorem encode_render_eq_iff_of_trailing_zero :
    (ofDecimal ⟨false, 15, 1, by decide, by decide⟩ .double).render ≠
      (ofDecimal ⟨false, 150, 2, by decide, by decide⟩ .double).render ∧
    (intervalOf 1 "MONTH").render ≠ (intervalOf 1 "DAY").render := by
  constructor
  · exact (encode_render_eq_iff (.decimal _ _) rfl rfl).not.mpr (by decide)
  · exact (encode_render_eq_iff (t := .interval) (.interval 1 0 0 0 1 0) rfl rfl).not.mpr
      (by decide)

end Literal

end SqlLowering
