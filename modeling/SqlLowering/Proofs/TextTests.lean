import Mathlib.Data.List.DropRight
import Mathlib.Data.List.Infix
import SqlLowering.Proofs.AnchoredRegex

/-!
# Tests on texts

The target has no tests for the ends or the inside of a text. An end is cut off at the length of the
text that is looked for and compared with it, and the inside is tested by the position of the first
occurrence. Here these are given their meaning, and it is the one that the tests have: a text begins
with another, ends with it or has it inside. No length needs a case of its own. Where the part is
longer than the whole, the end that is cut off is all of the whole, which is too short to be equal.

Main statement: `Expr.truthOf_textTests`.
-/

namespace SqlLowering

open Dialect Fragment

/-- The position of the first occurrence of a part, counted from one; zero if there is none. -/
def Text.position (part whole : List Char) : Nat :=
  (whole.tails.findIdx? part.isPrefixOf).elim 0 (· + 1)

/-- A part has a position exactly if it is inside. -/
theorem Text.position_pos_iff {part whole : List Char} :
    0 < position part whole ↔ part <:+: whole := by
  -- An occurrence is at the front of what is left after some characters.
  have inside : whole.tails.any part.isPrefixOf = true ↔ part <:+: whole := by
    simp only [List.any_eq_true, List.mem_tails, List.isPrefixOf_iff_prefix,
      List.infix_iff_prefix_suffix, and_comm]
  rw [← inside, ← List.findIdx?_isSome, position]
  cases whole.tails.findIdx? part.isPrefixOf <;> simp

namespace Fragment

variable (other : Fragment → Option String)

mutual

/-- The characters of the text that a fragment stands for, given those of fragments other than the
start and the end of a text. -/
def textOf : Fragment → Option (List Char)
  | .composite [.raw "LEFT", .composite [text, count] ", " true] "" false => do
    let s ← textOf text
    let n ← numberOf count
    some (s.take n)
  | .composite [.raw "RIGHT", .composite [text, count] ", " true] "" false => do
    let s ← textOf text
    let n ← numberOf count
    some (s.rtake n)
  | f => (other f).map String.toList

/-- The number that a fragment stands for: a length, a position, or the value of its digits. -/
def numberOf : Fragment → Option Nat
  | .composite [.raw "CHAR_LENGTH", .composite [text] ", " true] "" false =>
    (textOf text).map List.length
  | .composite [.raw "LOCATE", .composite [part, text] ", " true] "" false => do
    let sought ← textOf part
    let whole ← textOf text
    some (Text.position sought whole)
  | .raw digits => Text.unsigned? digits.toList
  | _ => none

end

/-- The truth value of a condition on texts or on numbers. -/
def truthOf : Fragment → Option Bool
  | .composite [.composite [left, .raw "=", right] " " false] "" true => do
    let s ← textOf other left
    let t ← textOf other right
    some (s == t)
  | .composite [.composite [left, .raw ">", right] " " false] "" true => do
    let m ← numberOf other left
    let n ← numberOf other right
    some (decide (n < m))
  | _ => none

/-! ## What the functions of the target give -/

variable {other} {x y : Fragment} {s t whole part : List Char} {m n : Nat}

/-- The start of a text is as many of its characters as the number says, or all of them. -/
theorem textOf_left (text : x.textOf other = some s) (count : y.numberOf other = some n) :
    (func "LEFT" [x, y]).textOf other = some (s.take n) := by
  show (x.textOf other >>= fun s => y.numberOf other >>= fun n => some (s.take n)) = _
  rw [text, count]
  rfl

/-- The end of a text, in the same way. -/
theorem textOf_right (text : x.textOf other = some s) (count : y.numberOf other = some n) :
    (func "RIGHT" [x, y]).textOf other = some (s.rtake n) := by
  show (x.textOf other >>= fun s => y.numberOf other >>= fun n => some (s.rtake n)) = _
  rw [text, count]
  rfl

/-- The length counts characters, not bytes. -/
theorem numberOf_charLength (text : x.textOf other = some s) :
    (func "CHAR_LENGTH" [x]).numberOf other = some s.length := by
  show (x.textOf other).map List.length = _
  rw [text]
  rfl

/-- The part that is looked for is the first argument. -/
theorem numberOf_locate (sought : x.textOf other = some s) (text : y.textOf other = some t) :
    (func "LOCATE" [x, y]).numberOf other = some (Text.position s t) := by
  show (x.textOf other >>= fun s => y.textOf other >>= fun t => some (Text.position s t)) = _
  rw [sought, text]
  rfl

theorem truthOf_equal (left : x.textOf other = some s) (right : y.textOf other = some t) :
    (parenthesize (words [x, .raw "=", y])).truthOf other = some (s == t) := by
  show (x.textOf other >>= fun s => y.textOf other >>= fun t => some (s == t)) = _
  rw [left, right]
  rfl

theorem truthOf_above (left : x.numberOf other = some m) (right : y.numberOf other = some n) :
    (parenthesize (words [x, .raw ">", y])).truthOf other = some (decide (n < m)) := by
  show (x.numberOf other >>= fun m => y.numberOf other >>= fun n => some (decide (n < m))) = _
  rw [left, right]
  rfl

/-! ## What the tests ask -/

/-- The start of a text at the length of a part is the part exactly if the text begins with it. -/
theorem truthOf_startsWith (text : x.textOf other = some whole)
    (sought : y.textOf other = some part) :
    (parenthesize (words [func "LEFT" [x, func "CHAR_LENGTH" [y]], .raw "=", y])).truthOf other =
      some (decide (part <+: whole)) := by
  rw [truthOf_equal (textOf_left text (numberOf_charLength sought)) sought, beq_eq_decide]
  simp only [List.prefix_iff_eq_take, eq_comm]

/-- The end of a text at the length of a part is the part exactly if the text ends with it. -/
theorem truthOf_endsWith (text : x.textOf other = some whole)
    (sought : y.textOf other = some part) :
    (parenthesize (words [func "RIGHT" [x, func "CHAR_LENGTH" [y]], .raw "=", y])).truthOf other =
      some (decide (part <:+ whole)) := by
  rw [truthOf_equal (textOf_right text (numberOf_charLength sought)) sought, beq_eq_decide]
  simp only [List.suffix_iff_eq_drop, List.rtake, eq_comm]

/-- The position of a part is above zero exactly if the part is inside the text. -/
theorem truthOf_contains (text : x.textOf other = some whole)
    (sought : y.textOf other = some part) :
    (parenthesize (words [func "LOCATE" [y, x], .raw ">", .int 0])).truthOf other =
      some (decide (part <:+: whole)) := by
  have zero : (int 0).numberOf other = some 0 := by
    show Text.unsigned? (Text.intText 0).toList = some 0
    decide
  rw [truthOf_above (numberOf_locate sought text) zero]
  simp only [Text.position_pos_iff]

end Fragment

namespace Expr

variable {ctx : Context} {text part : Expr} {x y : Fragment}

/-- A test of two texts that have results has one. -/
theorem lower_textTest {f : ScalarFunction} {test : Fragment → Fragment → List Fragment}
    (known : Rule.textTest? f = some test) (whole : (text.lower ctx).outcome = .done x)
    (sought : (part.lower ctx).outcome = .done y) :
    ((call f [text, part]).lower ctx).outcome = .done (parenthesize (words (test x y))) := by
  have kind : Rule.Kind.ofFunction f = .textPredicate := by
    cases f <;> first | rfl | cases known
  rw [lower_textPredicate ctx kind, known]
  simp only [Lowering.outcome_bind, Lowering.outcome_ofOption, Outcome.ofOption, Outcome.done_bind,
    whole, sought, Lowering.outcome_pure]

/-- Where two expressions are texts, the tests of the first for the second have results, and these
are true exactly if the first text begins with the second, ends with it or has it inside. Both may
be empty, and the second may be the longer one. -/
theorem truthOf_textTests (other : Fragment → Option String) {h n : List Char}
    (whole : (text.lower ctx).outcome = .done x) (sought : (part.lower ctx).outcome = .done y)
    (isText : x.textOf other = some h) (isPart : y.textOf other = some n) :
    (∃ f, ((call .startsWith [text, part]).lower ctx).outcome = .done f ∧
      f.truthOf other = some (decide (n <+: h))) ∧
    (∃ f, ((call .endsWith [text, part]).lower ctx).outcome = .done f ∧
      f.truthOf other = some (decide (n <:+ h))) ∧
    ∃ f, ((call .contains [text, part]).lower ctx).outcome = .done f ∧
      f.truthOf other = some (decide (n <:+: h)) := by
  refine ⟨⟨_, lower_textTest rfl whole sought, ?_⟩, ⟨_, lower_textTest rfl whole sought, ?_⟩,
    ⟨_, lower_textTest rfl whole sought, ?_⟩⟩
  · exact truthOf_startsWith isText isPart
  · exact truthOf_endsWith isText isPart
  · exact truthOf_contains isText isPart

/-- The text `banana` begins with the empty text, does not end with `bananas`, and has `nan` inside.
-/
theorem truthOf_textTests_of_banana :
    (∃ f, ((call .startsWith [column ⟨1, "s", none, .string⟩,
        literal (.string "") .string]).lower {}).outcome = .done f ∧
      f.truthOf (columnText "banana") = some true) ∧
    (∃ f, ((call .endsWith [column ⟨1, "s", none, .string⟩,
        literal (.string "bananas") .string]).lower {}).outcome = .done f ∧
      f.truthOf (columnText "banana") = some false) ∧
    ∃ f, ((call .contains [column ⟨1, "s", none, .string⟩,
        literal (.string "nan") .string]).lower {}).outcome = .done f ∧
      f.truthOf (columnText "banana") = some true := by
  have whole : ((column ⟨1, "s", none, .string⟩).lower {}).outcome = .done (.ident "s") := by
    rw [lower_column]
    rfl
  have sought (p : String) : ((literal (.string p) .string).lower {}).outcome =
      .done (bindText p) := by
    rw [lower_literal]
    rfl
  have tests (p : String) :=
    truthOf_textTests (columnText "banana") whole (sought p) rfl rfl
  refine ⟨?_, ?_, ?_⟩
  · obtain ⟨f, lowered, truth⟩ := (tests "").1
    exact ⟨f, lowered, truth.trans (by decide)⟩
  · obtain ⟨f, lowered, truth⟩ := (tests "bananas").2.1
    exact ⟨f, lowered, truth.trans (by decide)⟩
  · obtain ⟨f, lowered, truth⟩ := (tests "nan").2.2
    exact ⟨f, lowered, truth.trans (by decide)⟩

end Expr

end SqlLowering
