import Mathlib.Tactic.SplitIfs
import SqlLowering.Proofs.Comparison

/-!
# Unknown weekdays

The only error of lowering is a weekday that no day is called by. It comes from a string literal
that names the weekday of a call, and the literal may stand anywhere in the expression.

Main statement: `Expr.lowerRoot_unknownWeekday`. An error is about such a literal, and no other part
of the expression can hide it: if all is well once every unknown name is replaced by a known one,
then the expression as it stands is an error about one of the names.
-/

namespace SqlLowering

open Dialect Calendar

/-! ## Unknown names -/

namespace Calendar.Weekday

/-- A name that is no spelling of a weekday, whatever the case of its ASCII letters. -/
def IsUnknown (name : String) : Prop :=
  ∀ day : Weekday, ∀ spelling ∈ day.spellings, name.toLower ≠ spelling.toLower

theorem mem_all (day : Weekday) : day ∈ all := by
  cases day <;> decide

instance (name : String) : Decidable (IsUnknown name) :=
  decidable_of_iff (∀ day ∈ all, ∀ spelling ∈ day.spellings, name.toLower ≠ spelling.toLower)
    ⟨fun h day => h day (mem_all day), fun h day _ => h day⟩

/-- The spellings that names are compared with are in capitals. -/
theorem toUpper_spelling (day : Weekday) :
    ∀ spelling ∈ day.spellings, spelling.toUpper = spelling := by
  cases day <;> decide +kernel

/-- A small letter stands 32 places behind its capital. -/
theorem toNat_toUpper (c : Char) :
    c.toUpper.toNat = if 97 ≤ c.toNat ∧ c.toNat ≤ 122 then c.toNat - 32 else c.toNat := by
  have range : 97 ≤ c.val ∧ c.val ≤ 122 ↔ 97 ≤ c.toNat ∧ c.toNat ≤ 122 := by
    rw [UInt32.le_iff_toNat_le, UInt32.le_iff_toNat_le]
    rfl
  delta Char.toUpper
  split
  case isTrue small =>
    have bounds := range.mp small
    rw [if_pos bounds]
    show (c.val + ('A'.val - 'a'.val)).toNat = c.toNat - 32
    rw [UInt32.toNat_add]
    show (c.toNat + 4294967264) % 4294967296 = c.toNat - 32
    omega
  case isFalse other => rw [if_neg (mt range.mpr other)]

/-- A capital stands 32 places in front of its small letter. -/
theorem toNat_toLower (c : Char) :
    c.toLower.toNat = if 65 ≤ c.toNat ∧ c.toNat ≤ 90 then c.toNat + 32 else c.toNat := by
  have range : 65 ≤ c.val ∧ c.val ≤ 90 ↔ 65 ≤ c.toNat ∧ c.toNat ≤ 90 := by
    rw [UInt32.le_iff_toNat_le, UInt32.le_iff_toNat_le]
    rfl
  delta Char.toLower
  split
  case isTrue capital =>
    have bounds := range.mp capital
    rw [if_pos bounds]
    show (c.val + ('a'.val - 'A'.val)).toNat = c.toNat + 32
    rw [UInt32.toNat_add]
    show (c.toNat + 32) % 4294967296 = c.toNat + 32
    omega
  case isFalse other => rw [if_neg (mt range.mpr other)]

/-- Texts that are the same in capitals are the same in small letters. -/
theorem toUpper_eq_iff_toLower_eq {s t : String} :
    s.toUpper = t.toUpper ↔ s.toLower = t.toLower := by
  have lower : Char.toLower ∘ Char.toUpper = Char.toLower := by
    funext c
    rw [Function.comp, ← Char.toNat_inj, toNat_toLower, toNat_toLower, toNat_toUpper]
    split_ifs <;> omega
  have upper : Char.toUpper ∘ Char.toLower = Char.toUpper := by
    funext c
    rw [Function.comp, ← Char.toNat_inj, toNat_toUpper, toNat_toUpper, toNat_toLower]
    split_ifs <;> omega
  show s.map Char.toUpper = t.map Char.toUpper ↔ s.map Char.toLower = t.map Char.toLower
  simp only [← String.toList_inj, String.toList_map]
  constructor
  · intro same
    have small := congrArg (List.map Char.toLower) same
    rwa [List.map_map, List.map_map, lower] at small
  · intro same
    have large := congrArg (List.map Char.toUpper) same
    rwa [List.map_map, List.map_map, upper] at large

/-- To compare a name in capitals is to compare it up to case, as the spellings are in capitals. -/
theorem toUpper_mem_spellings {name : String} {day : Weekday} :
    name.toUpper ∈ day.spellings ↔ ∃ spelling ∈ day.spellings, name.toLower = spelling.toLower := by
  constructor
  · intro mem
    have same : name.toUpper = name.toUpper.toUpper := (toUpper_spelling day _ mem).symm
    exact ⟨name.toUpper, mem, toUpper_eq_iff_toLower_eq.mp same⟩
  · rintro ⟨spelling, mem, same⟩
    rw [toUpper_eq_iff_toLower_eq.mpr same, toUpper_spelling day spelling mem]
    exact mem

/-- A name stands for no day exactly if no day is called so. -/
theorem ofName?_eq_none_iff {name : String} : ofName? name = none ↔ IsUnknown name := by
  have absent (day : Weekday) : ¬ day.spellings.contains (name.map Char.toUpper) = true ↔
      ∀ spelling ∈ day.spellings, name.toLower ≠ spelling.toLower := by
    rw [List.contains_iff_mem]
    show ¬ name.toUpper ∈ day.spellings ↔ _
    rw [toUpper_mem_spellings]
    push Not
    rfl
  rw [ofName?, List.find?_eq_none]
  constructor
  · intro missing day
    exact (absent day).mp (missing day (mem_all day))
  · intro unknown day _
    exact (absent day).mpr (unknown day)

end Calendar.Weekday

/-- The calls that name a weekday by a string literal. -/
theorem Expr.weekdayName?_eq_some_iff {e : Expr} {name : String} :
    e.weekdayName? = some name ↔
      (∃ date day, e = .call .nextDay [date, day] ∧ day.stringLiteral? = some name) ∨
      ∃ later earlier start, e = .call .weekDiff [later, earlier, start] ∧
        start.stringLiteral? = some name := by
  constructor
  · intro named
    cases e with
    | call f args =>
        rw [weekdayName?] at named
        unfold weekdayArgument? at named
        split at named
        · exact .inl ⟨_, _, rfl, named⟩
        · exact .inr ⟨_, _, _, rfl, named⟩
        · cases named
    | _ => cases named
  · rintro (⟨date, day, rfl, literal⟩ | ⟨later, earlier, start, rfl, literal⟩)
    · exact literal
    · exact literal

namespace Composite

/-- A weekday is an error only if it is a literal; any other expression has no translation. -/
theorem weekday_eq_unknownWeekday {e : Expr} {name : String} :
    weekday e = .unknownWeekday name ↔ e.stringLiteral? = some name ∧ Weekday.IsUnknown name := by
  rw [← Weekday.ofName?_eq_none_iff]
  constructor
  · intro failed
    rw [weekday] at failed
    cases literal : e.stringLiteral? with
    | none => simp [literal] at failed
    | some content =>
        cases known : Weekday.ofName? content with
        | some day => simp [literal, known] at failed
        | none =>
            simp only [literal, known] at failed
            cases failed
            exact ⟨rfl, known⟩
  · rintro ⟨literal, unknown⟩
    simp only [weekday, literal, unknown]

/-- The two calls that name a weekday pass its error on, and the others have none. -/
theorem expand_eq_unknownWeekday {f : ScalarFunction} {args : List Expr} {name : String} :
    expand f args = .unknownWeekday name ↔
      (Expr.call f args).weekdayName? = some name ∧ Weekday.IsUnknown name := by
  have bound {day : Expr} {tree : Weekday → Expr} :
      (weekday day >>= fun found => pure (tree found)) = .unknownWeekday name ↔
        day.stringLiteral? = some name ∧ Weekday.IsUnknown name := by
    rw [← weekday_eq_unknownWeekday]
    cases weekday day with
    | done found => exact ⟨nofun, nofun⟩
    | untranslatable => exact ⟨nofun, nofun⟩
    | unknownWeekday other =>
        simp only [Outcome.unknownWeekday_bind, Outcome.unknownWeekday.injEq]
  constructor
  · intro failed
    unfold expand at failed
    split at failed
    case h_5 | h_6 => exact bound.mp failed
    all_goals cases failed
  · rintro ⟨named, unknown⟩
    rcases Expr.weekdayName?_eq_some_iff.mp named with
      ⟨date, day, same, literal⟩ | ⟨later, earlier, start, same, literal⟩
    · cases same
      exact bound.mpr ⟨literal, unknown⟩
    · cases same
      exact bound.mpr ⟨literal, unknown⟩

end Composite

namespace Expr

/-- Somewhere in the expression a call names a weekday by this text, and no weekday is called so. -/
def HasUnknownWeekday (e : Expr) (name : String) : Prop :=
  ∃ node, e.HasPart node ∧ node.weekdayName? = some name ∧ Weekday.IsUnknown name

/-! ## Replacing unknown names -/

/-- A text that names an unknown weekday becomes one that names Monday. -/
def mendLiteral : Expr → Expr
  | .literal (.string name) type =>
    .literal (.string (if Weekday.IsUnknown name then "MO" else name)) type
  | e => e

/-- The node with a known weekday, if it names an unknown one. -/
def mendWeekday : Expr → Expr
  | .call .nextDay [date, day] => .call .nextDay [date, day.mendLiteral]
  | .call .weekDiff [later, earlier, start] => .call .weekDiff [later, earlier, start.mendLiteral]
  | e => e

/-- The expression with a known weekday wherever it names an unknown one. -/
def mendWeekdays (e : Expr) : Expr :=
  mendWeekday (e.mapOperands fun c _ => c.mendWeekdays)
termination_by sizeOf e
decreasing_by exact sizeOf_lt_of_mem_children ‹_›

/-- A known name is not replaced. -/
theorem mendLiteral_eq_self {e : Expr}
    (known : ∀ name, e.stringLiteral? = some name → ¬ Weekday.IsUnknown name) :
    e.mendLiteral = e := by
  unfold mendLiteral
  split
  · rw [if_neg (known _ rfl)]
  · rfl

/-- A node that names no unknown weekday stays as it is. -/
theorem mendWeekday_eq_self {e : Expr}
    (known : ∀ name, e.weekdayName? = some name → ¬ Weekday.IsUnknown name) :
    e.mendWeekday = e := by
  unfold mendWeekday
  split
  · rw [mendLiteral_eq_self known]
  · rw [mendLiteral_eq_self known]
  · rfl

/-- The type of a call does not depend on the weekday. -/
theorem dataType_mendWeekday (e : Expr) : e.mendWeekday.dataType = e.dataType := by
  unfold mendWeekday
  split <;> rfl

/-- Only calls are changed, and a call is no literal. -/
theorem stringLiteral?_mendWeekday (e : Expr) :
    e.mendWeekday.stringLiteral? = e.stringLiteral? := by
  unfold mendWeekday
  split <;> rfl

/-- A literal stays what it is, since only the call around it knows whether it names a weekday. -/
theorem stringLiteral?_mendWeekdays (e : Expr) :
    e.mendWeekdays.stringLiteral? = e.stringLiteral? := by
  have nodes : NodeRel (fun _ _ => True) e (e.mapOperands fun c _ => c.mendWeekdays) :=
    .mapOperands e fun _ _ => trivial
  rw [mendWeekdays, stringLiteral?_mendWeekday, nodes.stringLiteral?_eq]

/-- So the name that a call has is still there when its operands have been mended. -/
theorem weekdayName?_mapOperands_mendWeekdays (e : Expr) :
    e.weekdayName? = (e.mapOperands fun c _ => c.mendWeekdays).weekdayName? := by
  have nodes : NodeRel (fun c c' => c.stringLiteral? = c'.stringLiteral?) e
      (e.mapOperands fun c _ => c.mendWeekdays) :=
    .mapOperands e fun c _ => (stringLiteral?_mendWeekdays c).symm
  exact nodes.weekdayName?_eq fun _ _ same => same

end Expr

/-! ## Errors -/

namespace Lowering.Comparison

/-- The first lowering fails only for the names of weekdays that are given. -/
def failsOnly (names : String → Prop) : Comparison where
  Holds x _ := ∀ name, x.outcome = .unknownWeekday name → names name
  ofOption x := by
    intro name failed
    cases x <;> cases failed
  convert mode pattern := by
    intro name failed
    cases failed
  bind := by
    intro α β x y f g first next name failed
    obtain ⟨notices, outcome⟩ := x
    cases outcome with
    | done a => exact next a name failed
    | untranslatable => cases failed
    | unknownWeekday other =>
        obtain rfl : other = name := Outcome.unknownWeekday.inj failed
        exact first other rfl

/-- A result of the second lowering is one of the first, unless the first one fails. -/
def unlessFailed : Comparison where
  Holds x y := ∀ b, y.outcome = .done b →
    x.outcome = .done b ∨ ∃ name, x.outcome = .unknownWeekday name
  ofOption _ _ done := .inl done
  convert _ _ _ done := .inl done
  bind := by
    intro α β x y f g first next b done
    rw [outcome_bind] at done
    obtain ⟨a, before, after⟩ := Outcome.bind_eq_done.mp done
    rw [outcome_bind]
    rcases first a before with same | ⟨name, failed⟩
    · rw [same]
      exact next a b after
    · rw [failed]
      exact .inr ⟨name, rfl⟩

end Lowering.Comparison

namespace Expr

open Lowering (Comparison)

variable {ctx : Context} {e : Expr} {name : String}

/-- A node is an error exactly if the weekday it names is unknown. -/
theorem expansion_eq_unknownWeekday :
    e.expansion = .unknownWeekday name ↔
      e.weekdayName? = some name ∧ Weekday.IsUnknown name := by
  cases e with
  | call f args => exact Composite.expand_eq_unknownWeekday
  | _ => exact ⟨nofun, nofun⟩

/-- A node that names a weekday is a composite call. -/
theorem kind_of_weekdayName? (named : e.weekdayName? = some name) : e.kind = .compositeCall := by
  rcases weekdayName?_eq_some_iff.mp named with ⟨_, _, rfl, _⟩ | ⟨_, _, _, rfl, _⟩
  · rfl
  · rfl

/-- A node that names an unknown weekday fails, whatever its other operands are. -/
theorem outcome_eq_unknownWeekday (named : e.weekdayName? = some name)
    (unknown : Weekday.IsUnknown name) : (e.lower ctx).outcome = .unknownWeekday name := by
  have composite := kind_of_weekdayName? named
  cases e with
  | call f args =>
      have failed := Composite.expand_eq_unknownWeekday.mpr ⟨named, unknown⟩
      rw [lower_compositeCall ctx composite, failed]
      rfl
  | _ => cases named

/-- An expression fails only for an unknown weekday that is named in it. -/
theorem hasUnknownWeekday_of_lowerRoot (failed : (e.lowerRoot ctx).outcome = .unknownWeekday name) :
    e.HasUnknownWeekday name := by
  have whole : (Comparison.failsOnly e.HasUnknownWeekday).Holds (e.lowerRoot ctx)
      (e.lowerRoot ctx) := by
    apply lowerRoot_compare_of_parts
    intro c part
    constructor
    · intro ref _
      exact Comparison.ofOption _ _
    · intro feature _
      exact Comparison.require _ _
    · intro other raised found same
      cases same
      exact ⟨c, part, expansion_eq_unknownWeekday.mp raised⟩
  exact whole name failed

/-- If the mended expression has a result, then the expression has the same result or fails. -/
theorem agrees_mendWeekdays (ctx : Context) (e : Expr) :
    Agrees .unlessFailed ctx ctx e e.mendWeekdays := by
  induction e using lowering_induction with
  | step e operand _ =>
      have nodes : NodeRel (Agrees .unlessFailed ctx ctx) e
          (e.mapOperands fun c _ => c.mendWeekdays) := .mapOperands e operand
      have names := weekdayName?_mapOperands_mendWeekdays e
      rw [mendWeekdays]
      by_cases known : ∀ name, e.weekdayName? = some name → ¬ Weekday.IsUnknown name
      · rw [mendWeekday_eq_self (names ▸ known)]
        have same : Comparison.unlessFailed.Fits ctx ctx e :=
          Comparison.fits_self _ ctx e nofun
        exact .of_nodes nodes (lower_compare nodes names same)
      · -- The call fails by itself, so its operands and what they are changed into do not matter.
        push Not at known
        obtain ⟨name, named, unknown⟩ := known
        constructor
        · rw [dataType_mendWeekday]
          exact nodes.dataType_eq fun _ _ related => related.dataType
        · rw [stringLiteral?_mendWeekday, nodes.stringLiteral?_eq]
          exact Comparison.ofOption _ _
        · intro b _
          exact .inr ⟨name, outcome_eq_unknownWeekday named unknown⟩

/-- The same at the root, where an alias is kept. -/
theorem lowerRoot_mendWeekdays (e : Expr) :
    Comparison.unlessFailed.Holds (e.lowerRoot ctx) (e.mendWeekdays.lowerRoot ctx) := by
  have below := (agrees_mendWeekdays ctx e).lower
  rw [mendWeekdays] at below ⊢
  cases e with
  | «alias» child name => exact Comparison.map _ (agrees_mendWeekdays ctx child).lower _
  | call f args =>
      have kept (args : List Expr) : (call f args).mendWeekday.lowerRoot ctx =
          (call f args).mendWeekday.lower ctx := by
        unfold mendWeekday
        split <;> rfl
      rw [mapOperands, kept]
      exact below
  | _ => exact below

/-- The only error is an unknown weekday. If lowering fails, it fails for the content of a string
literal that names the weekday of some call in the expression and that is no spelling of a weekday.
And no other part of the expression can hide such a literal: if there is one and the expression has
a result once all of them are replaced by a known weekday, then lowering fails for one of them. -/
theorem lowerRoot_unknownWeekday (ctx : Context) (e : Expr) :
    (∀ name, (e.lowerRoot ctx).outcome = .unknownWeekday name → e.HasUnknownWeekday name) ∧
    ((∃ name, e.HasUnknownWeekday name) →
      (∃ f, (e.mendWeekdays.lowerRoot ctx).outcome = .done f) →
      ∃ name, (e.lowerRoot ctx).outcome = .unknownWeekday name ∧ e.HasUnknownWeekday name) := by
  constructor
  · intro name
    exact hasUnknownWeekday_of_lowerRoot
  · rintro ⟨name, node, part, named, unknown⟩ ⟨f, mended⟩
    rcases lowerRoot_mendWeekdays e f mended with done | ⟨other, failed⟩
    · -- A result needs one for every part, and the call that names the weekday has none.
      obtain ⟨g, lowered⟩ := isLowered_of_hasPart (isLowered_of_lowerRoot done) part
      rw [outcome_eq_unknownWeekday named unknown] at lowered
      cases lowered
    · exact ⟨other, failed, hasUnknownWeekday_of_lowerRoot failed⟩

/-- The next Funday after a date is an error about Funday, because the next Monday has a result. -/
theorem lowerRoot_unknownWeekday_of_funday :
    (Expr.alias (.call .nextDay [.column ⟨1, "at", none, .date⟩, .text "Funday"])
      "next").mendWeekdays =
        .alias (.call .nextDay [.column ⟨1, "at", none, .date⟩, .text "MO"]) "next" ∧
    ∃ name, ((Expr.alias (.call .nextDay [.column ⟨1, "at", none, .date⟩, .text "Funday"])
      "next").lowerRoot {}).outcome = .unknownWeekday name ∧
      (Expr.alias (.call .nextDay [.column ⟨1, "at", none, .date⟩, .text "Funday"])
        "next").HasUnknownWeekday name := by
  have unknown : Weekday.IsUnknown "Funday" := by decide +kernel
  have monday : Composite.weekday (.text "MO") = .done .monday := by decide +kernel
  have mended : (Expr.alias (.call .nextDay [.column ⟨1, "at", none, .date⟩, .text "Funday"])
      "next").mendWeekdays =
        .alias (.call .nextDay [.column ⟨1, "at", none, .date⟩, .text "MO"]) "next" := by
    simp only [mendWeekdays, mapOperands, List.pmap, mendWeekday, text, ofValue, mendLiteral,
      unknown, if_true]
    rfl
  have lowered : (Composite.nextDay .monday (.column ⟨1, "at", none, .date⟩)).IsLowered {} := by
    have floor : Rule.Kind.ofFunction .floor = .scalarFunction := rfl
    have diff : Rule.Kind.ofFunction .dateDiff = .scalarFunction := rfl
    rw [IsLowered, Composite.nextDay, lower_dateArithmetic _ rfl]
    simp only [Composite.daysIntoWeek, Composite.daysSince, Composite.daysSinceEpoch,
      Composite.weekNumber, Composite.floor, long, ofValue, lower_binary, lower_cast, lower_literal,
      lower_column, lower_scalarFunction _ floor, lower_scalarFunction _ diff, Lowering.each]
    exact ⟨_, rfl⟩
  have stands : Composite.expand .nextDay [.column ⟨1, "at", none, .date⟩, .text "MO"] =
      .done (Composite.nextDay .monday (.column ⟨1, "at", none, .date⟩)) := by
    rw [Composite.expand, monday]
    rfl
  have done : ∃ f, ((Expr.alias (.call .nextDay [.column ⟨1, "at", none, .date⟩, .text "Funday"])
      "next").mendWeekdays.lowerRoot {}).outcome = .done f := by
    obtain ⟨f, result⟩ := lowered
    have called : ((Expr.call .nextDay [.column ⟨1, "at", none, .date⟩, .text "MO"]).lower
        {}).outcome = .done f :=
      (lower_eq_done_of_composite rfl).mpr ⟨_, stands, result⟩
    refine ⟨f.aliased "next", ?_⟩
    rw [mended, lowerRoot, Lowering.outcome_bind, called]
    rfl
  have part : (Expr.alias (.call .nextDay [.column ⟨1, "at", none, .date⟩, .text "Funday"])
      "next").HasPart (.call .nextDay [.column ⟨1, "at", none, .date⟩, .text "Funday"]) :=
    .single (mem_children_alias _ _)
  exact ⟨mended, (lowerRoot_unknownWeekday {} _).2 ⟨"Funday", _, part, rfl, unknown⟩ done⟩

end Expr

end SqlLowering
