import Mathlib.Algebra.Order.Round
import Mathlib.Data.Rat.Floor
import SqlLowering.Lowering.Literal
import SqlLowering.Proofs.ReadBack

/-!
# The types of decimal literals

A decimal literal is its digits, cast to a decimal type of the target. Such a cast rounds a number
to the places of the type and holds it at the greatest number of the type, both without a word, so a
type that is too narrow changes the literal. Without a declared type the literal takes the type of
its own digits. Leading zeros after the point need digits too, and zero needs one, so the digits of
the type are the most of three numbers, and with them every decimal is kept as it is. A declared
type is only brought within the limits of the target; that takes digits after the point before it
takes digits in front of it.

Main statement: `Literal.encode_decimal_exact`.
-/

namespace SqlLowering

open Text

/-! ## Numbers -/

namespace Number.Decimal

/-- The size of a decimal with its sign. -/
def units (d : Decimal) : ℤ :=
  if d.negative then -(d.size : ℤ) else d.size

/-- The number that a decimal denotes. -/
def value (d : Decimal) : ℚ :=
  d.units / 10 ^ d.scale

/-- The sign is all that the units add to the size. -/
theorem abs_units (d : Decimal) : |d.units| = d.size := by
  rw [units]
  split <;> simp

/-- A decimal is a whole number of units of its last place. -/
theorem value_mul_pow (d : Decimal) : d.value * 10 ^ d.scale = d.units :=
  div_mul_cancel₀ _ (by positivity)

/-- A zero denotes the same number without its sign. -/
theorem value_plainZero (d : Decimal) : d.plainZero.value = d.value := by
  have same : d.plainZero.units = d.units := by
    by_cases zero : d.size = 0 <;> simp [units, plainZero, zero]
  rw [value, value, same]
  rfl

/-- The size has as many digits as are counted. -/
theorem size_lt_pow_digitCount (d : Decimal) : d.size < 10 ^ d.digitCount :=
  (Nat.length_toDigits_le_iff (by decide) (List.length_pos_iff.mpr Nat.toDigits_ne_nil)).mp le_rfl

/-- A size of 96 bits has at most 29 digits. -/
theorem digitCount_le (d : Decimal) : d.digitCount ≤ 29 := by
  refine (Nat.length_toDigits_le_iff (by decide) (by decide)).mpr ?_
  exact d.size_lt.trans (by decide)

/-- The precision is at most 29 as well, as there are no more than 28 places. -/
theorem precision_le (d : Decimal) : d.precision ≤ 29 := by
  have digits := d.digitCount_le
  have places := d.scale_le
  rw [precision]
  omega

/-- The precision counts all places after the point, also those with leading zeros. -/
theorem scale_le_precision (d : Decimal) : d.scale ≤ d.precision := by
  rw [precision]
  omega

/-- The precision counts at least one digit, also for a zero. -/
theorem one_le_precision (d : Decimal) : 1 ≤ d.precision :=
  le_max_right _ _

/-- The size is below the power of ten with the precision as its exponent, as all its digits are
counted. -/
theorem size_lt_pow_precision (d : Decimal) : d.size < 10 ^ d.precision := by
  have digits : d.digitCount ≤ d.precision := by
    rw [precision]
    omega
  exact d.size_lt_pow_digitCount.trans_le (Nat.pow_le_pow_right (by decide) digits)

/-- In front of the point there are no more digits than the precision leaves. -/
theorem abs_value_lt (d : Decimal) : |d.value| < 10 ^ (d.precision - d.scale) := by
  have positive : (0 : ℚ) < 10 ^ d.scale := by positivity
  have size : |(d.units : ℚ)| = d.size := by
    exact_mod_cast d.abs_units
  have fits : (d.size : ℚ) < 10 ^ d.precision := by
    exact_mod_cast d.size_lt_pow_precision
  rw [value, abs_div, abs_of_pos positive, size, div_lt_iff₀ positive, ← pow_add,
    Nat.sub_add_cancel d.scale_le_precision]
  exact fits

end Number.Decimal

/-! ## Types -/

/-- A decimal type of the target, by the number of its digits and of those after the point. -/
structure DecimalType where
  precision : Nat
  scale : Nat

namespace DecimalType

open Number

/-- The type is within the limits of the target. -/
def IsAllowed (t : DecimalType) : Prop :=
  t.scale ≤ t.precision ∧ t.precision ≤ 65 ∧ t.scale ≤ 30

/-- The name of the type. -/
def text (t : DecimalType) : String :=
  "DECIMAL(" ++ natText t.precision ++ "," ++ natText t.scale ++ ")"

/-- The nearest whole number; halves go away from zero. -/
def nearest (x : ℚ) : ℤ :=
  if x < 0 then -round (-x) else round x

/-- A number as the type holds it: rounded to the places of the type, and no further from zero than
its greatest number. -/
def cast (t : DecimalType) (x : ℚ) : ℚ :=
  let most : ℤ := 10 ^ t.precision - 1
  (max (-most) (min most (nearest (x * 10 ^ t.scale))) : ℤ) / 10 ^ t.scale

example : cast ⟨3, 1⟩ (-5 / 4) = -13 / 10 ∧ cast ⟨3, 1⟩ 1000 = 999 / 10 := by
  decide +kernel

/-- Digits cast to the type. -/
def castText (t : DecimalType) (digits : String) : String :=
  "CAST(" ++ digits ++ " AS " ++ t.text ++ ")"

/-- The number that digits cast to the type denote. -/
def castValue? (t : DecimalType) (digits : String) : Option ℚ :=
  (Decimal.parse? digits).map fun d => t.cast d.value

variable {t : DecimalType} {x : ℚ}

/-- A whole number is its own nearest one. -/
theorem nearest_intCast (k : ℤ) : nearest k = k := by
  rw [nearest]
  split
  · rw [← Int.cast_neg, round_intCast, neg_neg]
  · exact round_intCast k

/-- A number is kept if it has the places of the type and no more digits. -/
theorem cast_of_units {k : ℤ} (whole : x * 10 ^ t.scale = k) (fits : |k| < 10 ^ t.precision) :
    t.cast x = x := by
  have held : max (-(10 ^ t.precision - 1)) (min (10 ^ t.precision - 1) k) = k := by
    obtain ⟨lower, upper⟩ := abs_lt.mp fits
    omega
  have positive : (10 : ℚ) ^ t.scale ≠ 0 := by positivity
  rw [cast, whole, nearest_intCast, held, ← whole, mul_div_cancel_right₀ x positive]

/-- The same by the size of the number. -/
theorem cast_of_abs_lt (room : t.scale ≤ t.precision) {k : ℤ} (whole : x * 10 ^ t.scale = k)
    (small : |x| < 10 ^ (t.precision - t.scale)) : t.cast x = x := by
  have positive : (0 : ℚ) < 10 ^ t.scale := by positivity
  have fits : |(k : ℚ)| < 10 ^ t.precision := by
    calc |(k : ℚ)| = |x| * 10 ^ t.scale := by rw [← whole, abs_mul, abs_of_pos positive]
      _ < 10 ^ (t.precision - t.scale) * 10 ^ t.scale := mul_lt_mul_of_pos_right small positive
      _ = 10 ^ t.precision := by rw [← pow_add, Nat.sub_add_cancel room]
  exact cast_of_units whole (by exact_mod_cast fits)

/-- The type with the digits of a decimal keeps it. -/
theorem castValue?_text (d : Decimal) :
    castValue? ⟨d.precision, d.scale⟩ d.text = some d.value := by
  have kept : cast ⟨d.precision, d.scale⟩ d.value = d.value :=
    cast_of_abs_lt d.scale_le_precision d.value_mul_pow d.abs_value_lt
  rw [castValue?, d.parse?_text, Option.map_some, d.value_plainZero, kept]

/-- The type brought within the limits of the target. -/
def limited (t : DecimalType) : DecimalType :=
  ⟨min t.precision 65, min t.scale 30⟩

/-- Within the limits there are still no more places than digits, since the limit for places is the
smaller one. -/
theorem isAllowed_limited (room : t.scale ≤ t.precision) : t.limited.IsAllowed := by
  simp only [IsAllowed, limited]
  omega

/-- A type within the limits stays as it is. -/
theorem limited_of_isAllowed (h : t.IsAllowed) : t.limited = t := by
  obtain ⟨-, digits, places⟩ := h
  rw [limited, Nat.min_eq_left digits, Nat.min_eq_left places]

/-- Digits in front of the point are not given up for the limit of the places. -/
theorem sub_le_limited (digits : t.precision ≤ 65) :
    t.precision - t.scale ≤ t.limited.precision - t.limited.scale := by
  simp only [limited]
  omega

end DecimalType

/-! ## Literals -/

namespace Literal

open Number

/-- The type that is written is the declared one within the limits. -/
theorem sql_decimalType (precision scale : UInt8) : (decimalType precision scale).sql =
    (DecimalType.limited ⟨precision.toNat, scale.toNat⟩).text := by
  simp [decimalType, Fragment.join, Fragment.nat, Fragment.sql, Fragment.sqlOfParts,
    Fragment.sqlAfter, DecimalType.text, DecimalType.limited, String.append_assoc]

/-- A cast of a decimal is its digits and the type. -/
theorem sql_castAs_decimal (d : Decimal) (type : Fragment) :
    (Fragment.join [.raw "CAST(", .decimal d, .raw " AS ", type, .raw ")"] "").sql =
      "CAST(" ++ d.text ++ " AS " ++ type.sql ++ ")" := by
  simp [Fragment.join, Fragment.decimal, Fragment.sql, Fragment.sqlOfParts, Fragment.sqlAfter,
    String.append_assoc]

/-- Under a declared decimal type, a decimal is cast to that type within the limits. -/
theorem sql_ofDecimal_declared (d : Decimal) (precision scale : UInt8) :
    (ofDecimal d (.decimal precision scale)).sql =
      (DecimalType.limited ⟨precision.toNat, scale.toNat⟩).castText d.text := by
  rw [ofDecimal, sql_castAs_decimal, sql_decimalType, DecimalType.castText]

/-- A precision fits in a byte. -/
theorem toNat_precision (d : Decimal) : d.precision.toUInt8.toNat = d.precision :=
  UInt8.toNat_ofNat_of_lt' (d.precision_le.trans_lt (by decide))

theorem toNat_scale (d : Decimal) : d.scale.toUInt8.toNat = d.scale :=
  UInt8.toNat_ofNat_of_lt' (d.scale_le.trans_lt (by decide))

/-- Under any other type, a decimal is cast to the type of its own digits. -/
theorem sql_ofDecimal_natural (d : Decimal) {declared : DataType}
    (other : ∀ precision scale, declared ≠ .decimal precision scale) :
    (ofDecimal d declared).sql = DecimalType.castText ⟨d.precision, d.scale⟩ d.text := by
  have own : ofDecimal d declared =
      ofDecimal d (.decimal d.precision.toUInt8 d.scale.toUInt8) := by
    cases declared with
    | decimal precision scale => exact absurd rfl (other precision scale)
    | _ => rfl
  have allowed : DecimalType.IsAllowed ⟨d.precision, d.scale⟩ :=
    ⟨d.scale_le_precision, d.precision_le.trans (by decide), d.scale_le.trans (by decide)⟩
  rw [own, sql_ofDecimal_declared, toNat_precision, toNat_scale,
    DecimalType.limited_of_isAllowed allowed]

/-- No digit of a decimal is lost. The type that a decimal has on its own has between 1 and 29
digits, the decimal is a whole number of units of its last place, and has no digits in front of the
point beyond those of the type. So the text written under a type that is not decimal denotes the
number itself. Under a declared decimal type, the type that is written is within the limits of the
target and is the declared one if that is; up to 65 digits, no digit in front of the point is given
up. -/
theorem encode_decimal_exact (d : Decimal) :
    (∃ p s : UInt8, (Value.decimal d).naturalType = .decimal p s ∧
      p.toNat = d.precision ∧ s.toNat = d.scale ∧
      1 ≤ p.toNat ∧ s.toNat ≤ p.toNat ∧ p.toNat ≤ 29 ∧
      (∃ k : ℤ, d.value * 10 ^ s.toNat = k) ∧ |d.value| < 10 ^ (p.toNat - s.toNat) ∧
      ∀ declared, (∀ precision scale, declared ≠ .decimal precision scale) →
        ∃ f, encode (.decimal d) declared = some f ∧
          f.sql = DecimalType.castText ⟨p.toNat, s.toNat⟩ d.text ∧
          DecimalType.castValue? ⟨p.toNat, s.toNat⟩ d.text = some d.value) ∧
    ∀ precision scale : UInt8, scale ≤ precision →
      ∃ f t, encode (.decimal d) (.decimal precision scale) = some f ∧
        f.sql = DecimalType.castText t d.text ∧ t.IsAllowed ∧
        (DecimalType.IsAllowed ⟨precision.toNat, scale.toNat⟩ →
          t = ⟨precision.toNat, scale.toNat⟩) ∧
        (precision.toNat ≤ 65 → precision.toNat - scale.toNat ≤ t.precision - t.scale) := by
  constructor
  · refine ⟨_, _, rfl, toNat_precision d, toNat_scale d, ?_⟩
    rw [toNat_precision, toNat_scale]
    refine ⟨d.one_le_precision, d.scale_le_precision, d.precision_le, ⟨_, d.value_mul_pow⟩,
      d.abs_value_lt, ?_⟩
    intro declared other
    exact ⟨_, rfl, sql_ofDecimal_natural d other, DecimalType.castValue?_text d⟩
  · intro precision scale room
    exact ⟨_, _, rfl, sql_ofDecimal_declared d precision scale,
      DecimalType.isAllowed_limited (UInt8.le_iff_toNat_le.mp room),
      DecimalType.limited_of_isAllowed,
      DecimalType.sub_le_limited (t := ⟨precision.toNat, scale.toNat⟩)⟩

/-- The decimal 0.005, with two zeros after the point that count as digits of its type. -/
def fiveMills : Decimal := ⟨false, 5, 3, by decide, by decide⟩

/-- It is kept by a type of three digits, and a declared type of 60 digits with 40 places keeps the
20 digits in front of the point when its places are cut down to 30. -/
theorem encode_decimal_exact_of_five_mills :
    (∃ f, encode (.decimal fiveMills) .double = some f ∧ f.sql = "CAST(0.005 AS DECIMAL(3,3))" ∧
      DecimalType.castValue? ⟨3, 3⟩ "0.005" = some (1 / 200)) ∧
    ∃ f t, encode (.decimal fiveMills) (.decimal 60 40) = some f ∧
      f.sql = DecimalType.castText t "0.005" ∧ t.IsAllowed ∧ 20 ≤ t.precision - t.scale := by
  have text : fiveMills.text = "0.005" := by decide
  have digits : fiveMills.precision = 3 := by decide
  have value : fiveMills.value = 1 / 200 := by
    norm_num [Decimal.value, Decimal.units, fiveMills]
  obtain ⟨⟨p, s, -, hp, hs, -, -, -, -, -, natural⟩, declared⟩ := encode_decimal_exact fiveMills
  constructor
  · obtain ⟨f, encoded, sql, cast⟩ := natural .double (by intro _ _ same; cases same)
    rw [hp, hs, text, digits] at sql cast
    exact ⟨f, encoded, sql.trans (by decide), value ▸ cast⟩
  · obtain ⟨f, t, encoded, sql, allowed, -, front⟩ := declared 60 40 (by decide)
    exact ⟨f, t, encoded, text ▸ sql, allowed, front (by decide)⟩

end Literal

end SqlLowering
