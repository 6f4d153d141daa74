import SqlLowering.Proofs.Containment
import SqlLowering.Proofs.Wording

/-!
# Where parameters come from

The parameters of a lowered expression are the values that its written nodes supply, no others and
all of them. A literal or a set supplies those of its values that have no fixed spelling, under its
declared type; a call with a date pattern supplies the converted pattern; a match with wildcards
supplies its escape character. The rest are constants that a node brings along: the zone in which
timestamps are kept, the first day of the calendar that weeks are counted by, and the spellings of
truth values. `Expr.ownParameters` is that table.

Main statement: `Expr.lowerRoot_params`. Which nodes are written is said in `Expr.Writes`: all but
date patterns and weekdays. A tree that stands for a composite call may write an argument several
times, and its constants belong to the call.
-/

namespace SqlLowering

open Dialect Fragment Calendar

/-- The value is bound as a parameter; all others have a fixed spelling. -/
def Value.isBound : Value → Bool
  | .null | .string _ | .binary _ | .date _ | .timestamp _ => true
  | _ => false

namespace Parameter

/-- A text as a parameter. -/
def text (s : String) : Parameter :=
  ⟨.string s, .string⟩

/-- The zone in which timestamps are kept. -/
def utc : Parameter :=
  text "UTC"

/-- The day from which days are counted. -/
def epoch : Parameter :=
  ⟨.date Date.epoch, .date⟩

/-- Those of several values of one declared type that are bound. -/
def ofValues (values : List Value) (type : DataType) : List Parameter :=
  (values.filter Value.isBound).map (⟨·, type⟩)

/-- A date pattern in the language of the target. Only a string literal is one. -/
def ofPattern (mode : Format.Mode) (pattern : Expr) : List Parameter :=
  pattern.stringLiteral?.toList.map fun letters => text (mode.convert letters)

end Parameter

/-- The parameters that a call supplies besides those of its arguments. -/
def ScalarFunction.ownParameters : ScalarFunction → List Expr → List Parameter
  | .dateFormat, [_, pattern] | .strToDate, [_, pattern] | .fromUnixTimeFormatted, [_, pattern] =>
    Parameter.ofPattern .symbol pattern
  | .toChar, [_, pattern] | .toDate, [_, pattern] | .toTimestamp, [_, pattern] =>
    Parameter.ofPattern .specifier pattern
  | .stringToDateInTimezone, [_, pattern, _] => .utc :: Parameter.ofPattern .symbol pattern
  | .stringToDateInTimezone, [_, _] | .dayStartInTimezone, [_, _] => [.utc]
  | .nextDay, [_, _] | .weekDiff, [_, _, _] => [.epoch]
  | .dayOfWeekName, [_] => [.text "%W"]
  | _, _ => []

namespace Expr

/-- The parameters that a node supplies besides those of its operands. -/
def ownParameters : Expr → List Parameter
  | .literal value type => Parameter.ofValues [value] type
  | .inSet _ values type _ => Parameter.ofValues values type
  | .pattern (.like escape) _ _ =>
    if escape = '\\' then [] else [.text (String.singleton escape)]
  | .cast child .string =>
    if child.dataType = .boolean then [.text "true", .text "false"] else []
  | .call f args => f.ownParameters args
  | _ => []

/-- A written node of an expression supplies a parameter. -/
def Supplies (e : Expr) (p : Parameter) : Prop :=
  ∃ node, e.Writes node ∧ p ∈ node.ownParameters

end Expr

/-! ## The parameters of one node -/

namespace Fragment

variable {p : Parameter}

/-- The parameters of several fragments are those of each, one after the other. -/
theorem paramsOfParts_eq_flatMap (parts : List Fragment) :
    paramsOfParts parts = parts.flatMap params := by
  induction parts with
  | nil => rfl
  | cons part parts ih => rw [paramsOfParts, ih, List.flatMap_cons]

/-- Separators and parentheses are text, so only the parts have parameters. -/
@[simp] theorem mem_params_composite {parts : List Fragment} {separator : String} {parens : Bool} :
    p ∈ (composite parts separator parens).params ↔ ∃ part ∈ parts, p ∈ part.params := by
  rw [params, paramsOfParts_eq_flatMap, List.mem_flatMap]

@[simp] theorem params_raw (text : String) : (raw text).params = [] := rfl

@[simp] theorem params_ident (name : String) : (ident name).params = [] := rfl

@[simp] theorem params_int (i : Int) : (Fragment.int i).params = [] := rfl

@[simp] theorem params_bindText (s : String) : (bindText s).params = [.text s] := rfl

@[simp] theorem mem_params_join {parts : List Fragment} {separator : String} :
    p ∈ (join parts separator).params ↔ ∃ part ∈ parts, p ∈ part.params :=
  mem_params_composite

@[simp] theorem mem_params_words {parts : List Fragment} :
    p ∈ (words parts).params ↔ ∃ part ∈ parts, p ∈ part.params :=
  mem_params_composite

/-- Two fragments have their parameters between them; the separator has none. -/
@[simp] theorem mem_params_concat {f g : Fragment} {separator : String} :
    p ∈ (concat f g separator).params ↔ p ∈ f.params ∨ p ∈ g.params := by
  simp [concat]

@[simp] theorem mem_params_parenthesize {f : Fragment} :
    p ∈ (parenthesize f).params ↔ p ∈ f.params := by
  simp [parenthesize]

/-- The name of a function is text, so a call has the parameters of its arguments. -/
@[simp] theorem mem_params_func {name : String} {args : List Fragment} :
    p ∈ (func name args).params ↔ ∃ arg ∈ args, p ∈ arg.params := by
  simp [func]

end Fragment

section Nodes

variable {ctx : Context} {visit : Expr → Fragment} {p : Parameter}

namespace Literal

@[simp] theorem params_decimalType (precision scale : UInt8) :
    (decimalType precision scale).params = [] := rfl

/-- A decimal is written as text, with its type. -/
theorem params_ofDecimal (d : Number.Decimal) (declared : DataType) :
    (ofDecimal d declared).params = [] := by
  cases declared <;> rfl

/-- A literal is bound, or its text has no parameters. -/
theorem params_encode {value : Value} {declared : DataType} {f : Fragment}
    (h : encode value declared = some f) : f.params = Parameter.ofValues [value] declared := by
  cases value with
  | null | string | binary | date | timestamp =>
      cases h
      rfl
  | bool b => cases b <;> cases h <;> rfl
  | byte n | short n | int n | long n =>
      cases h
      rfl
  | float x | double x =>
      obtain ⟨s, -, rfl⟩ := Option.map_eq_some_iff.mp h
      rfl
  | decimal d =>
      cases h
      exact params_ofDecimal d declared
  | interval months days micros =>
      rw [encode, ofInterval?] at h
      split at h
      · cases h
        rfl
      · split at h
        · cases h
          rfl
        · split at h
          · cases h
            rfl
          · cases h

/-- The members of a set that are bound are its parameters, and the others are text. -/
theorem mem_params_encodeAll {values : List Value} {declared : DataType} {fs : List Fragment}
    (h : encodeAll values declared = some fs) :
    (∃ f ∈ fs, p ∈ f.params) ↔ p ∈ Parameter.ofValues values declared := by
  have same := encodeAll_eq_some.mp h
  induction values generalizing fs with
  | nil =>
      have empty : fs = [] := by simpa using same.symm
      simp [empty, Parameter.ofValues]
  | cons value values ih =>
      cases fs with
      | nil => cases same
      | cons f fs =>
          obtain ⟨first, others⟩ := List.cons.inj same
          have rest : (∃ f ∈ fs, p ∈ f.params) ↔ p ∈ Parameter.ofValues values declared :=
            ih (encodeAll_eq_some.mpr others) others
          have split : Parameter.ofValues (value :: values) declared =
              Parameter.ofValues [value] declared ++ Parameter.ofValues values declared := by
            simp [Parameter.ofValues, ← List.map_append, ← List.filter_append]
          rw [List.exists_mem_cons_iff, rest, params_encode first, split, List.mem_append]

end Literal

namespace Rule

@[simp] theorem mem_params_ifElse {condition consequent otherwise : Fragment} :
    p ∈ (ifElse condition consequent otherwise).params ↔
      p ∈ condition.params ∨ p ∈ consequent.params ∨ p ∈ otherwise.params := by
  simp [ifElse]

/-- Operators are text. -/
@[simp] theorem mem_params_applyUnary {op : UnaryOp} {f : Fragment} :
    p ∈ (applyUnary op f).params ↔ p ∈ f.params := by
  cases op <;> simp [applyUnary]

/-- A test for membership has the parameters of its value and of its members. -/
@[simp] theorem mem_params_memberTest {value : Fragment} {members : List Fragment}
    {negated : Bool} :
    p ∈ (memberTest value members negated).params ↔
      p ∈ value.params ∨ ∃ member ∈ members, p ∈ member.params := by
  simp [memberTest]

/-- A case has the parameters of its branches and of its default. -/
@[simp] theorem mem_params_caseWhen {branches : List (List Fragment)}
    {otherwise : Option Fragment} :
    p ∈ (caseWhen branches otherwise).params ↔
      (∃ branch ∈ branches, ∃ f ∈ branch, p ∈ f.params) ∨
        ∃ f ∈ otherwise, p ∈ f.params := by
  have nested : (∃ f ∈ branches.flatten, p ∈ f.params) ↔
      ∃ branch ∈ branches, ∃ f ∈ branch, p ∈ f.params := by
    simp only [List.mem_flatten]
    constructor
    · rintro ⟨f, ⟨branch, listed, mem⟩, inside⟩
      exact ⟨branch, listed, f, mem, inside⟩
    · rintro ⟨branch, listed, f, mem, inside⟩
      exact ⟨f, ⟨branch, listed, mem⟩, inside⟩
  rw [← nested]
  cases otherwise <;> simp [caseWhen, or_and_right, exists_or]

/-- A match supplies its escape character unless it is the target's own. -/
theorem mem_params_matchWords (kind : MatchKind) {text pattern : Fragment} (child regex : Expr) :
    (∃ f ∈ matchWords kind text pattern, p ∈ f.params) ↔
      p ∈ (Expr.pattern kind child regex).ownParameters ∨
        p ∈ text.params ∨ p ∈ pattern.params := by
  cases kind with
  | like escape =>
      by_cases own : escape = '\\'
      · simp [matchWords, Expr.ownParameters, own]
      · simp [matchWords, Expr.ownParameters, own, or_comm, or_assoc]
  | regex => simp [matchWords, Expr.ownParameters]
  | regexFromStart => simp [matchWords, Expr.ownParameters]

/-- A test names both texts and adds nothing but text. -/
theorem mem_params_textTest? {function : ScalarFunction}
    {test : Fragment → Fragment → List Fragment} (tested : textTest? function = some test)
    {text part : Fragment} :
    (∃ f ∈ test text part, p ∈ f.params) ↔ p ∈ text.params ∨ p ∈ part.params := by
  cases function with
  | contains =>
      cases tested
      simp [or_comm]
  | startsWith | endsWith =>
      cases tested
      simp
  | _ => cases tested

end Rule

namespace Conversion

@[simp] theorem mem_params_castAs {operand target : Fragment} :
    p ∈ (castAs operand target).params ↔ p ∈ operand.params ∨ p ∈ target.params := by
  simp [castAs]

/-- A conversion supplies the spellings of truth values when it makes a text of one. -/
theorem mem_params_convert? {operand f : Fragment} {child : Expr} {target : DataType}
    (h : convert? operand child.dataType target = some f) :
    p ∈ f.params ↔ p ∈ (Expr.cast child target).ownParameters ∨ p ∈ operand.params := by
  cases target with
  | string =>
      rw [convert?] at h
      split at h
      · rename_i truth
        cases h
        simp [Expr.ownParameters, truth, or_comm]
      · rename_i other
        split at h
        · cases h
        · cases h
          simp [Expr.ownParameters, other]
  | byte | short | integer | long =>
      rw [convert?] at h
      split at h
      · cases h
        simp [Expr.ownParameters, truncated]
      · split at h
        · cases h
          simp [Expr.ownParameters]
        · cases h
  | float | double | date | timestamp | decimal | boolean =>
      rw [convert?] at h
      split at h
      · cases h
        simp [Expr.ownParameters]
      · cases h
  | null | binary | interval => cases h

end Conversion

namespace AggregateCall

/-- An aggregate adds only its name and `DISTINCT`, which are text. -/
@[simp] theorem mem_params_write {func : AggregateFunction} {distinct : Bool}
    {args : List Fragment} :
    p ∈ (write func distinct args).params ↔ ∃ arg ∈ args, p ∈ arg.params := by
  rw [write]
  split <;> simp

/-- A filtered argument has the parameters of the filter too. -/
@[simp] theorem mem_params_restrict {filter : Option Fragment} {arg : Fragment} :
    p ∈ (restrict filter arg).params ↔ (∃ f ∈ filter, p ∈ f.params) ∨ p ∈ arg.params := by
  cases filter <;> simp [restrict]

/-- A count of rows has no parameters but those of its filter. -/
theorem mem_params_rowArguments {filter : Option Fragment} :
    (∃ arg ∈ rowArguments filter, p ∈ arg.params) ↔ ∃ f ∈ filter, p ∈ f.params := by
  cases filter <;> simp [rowArguments]

/-- The filter is in every argument, and there is at least one. -/
theorem mem_params_restricted {filter : Option Fragment} {args : List Fragment}
    (nonempty : args ≠ []) :
    (∃ g ∈ args.map (restrict filter), p ∈ g.params) ↔
      (∃ f ∈ filter, p ∈ f.params) ∨ ∃ arg ∈ args, p ∈ arg.params := by
  constructor
  · rintro ⟨g, mem, inside⟩
    obtain ⟨arg, given, rfl⟩ := List.mem_map.mp mem
    rcases mem_params_restrict.mp inside with found | found
    · exact .inl found
    · exact .inr ⟨arg, given, found⟩
  · rintro (found | ⟨arg, given, found⟩)
    · obtain ⟨first, listed⟩ := List.exists_mem_of_ne_nil args nonempty
      exact ⟨_, List.mem_map_of_mem listed, mem_params_restrict.mpr (.inl found)⟩
    · exact ⟨_, List.mem_map_of_mem given, mem_params_restrict.mpr (.inr found)⟩

/-- An aggregate has the parameters of its operands, also of a filter that no argument was given
for. -/
theorem mem_params_assemble {agg : AggregateCall Expr} {f : Fragment}
    (h : agg.assemble ctx visit = some f) :
    p ∈ f.params ↔ ∃ c ∈ agg.children, p ∈ (visit c).params := by
  simp only [assemble] at h
  split at h
  · split at h
    · rename_i empty
      cases h
      rw [mem_params_write, mem_params_rowArguments]
      simp [children, List.isEmpty_iff.mp empty]
    · rename_i given
      cases h
      have nonempty : agg.args.map visit ≠ [] := by simpa using given
      rw [mem_params_write, mem_params_restricted nonempty]
      simp [children, or_and_right, exists_or]
  · cases h

end AggregateCall

@[simp] theorem FrameBoundary.params_fragment (boundary : FrameBoundary) :
    boundary.fragment.params = [] := by
  cases boundary <;> rfl

/-- The distances of a frame are text. -/
@[simp] theorem WindowFrame.params_fragment (frame : WindowFrame) : frame.fragment.params = [] := by
  simp [WindowFrame.fragment, words, join, params, paramsOfParts]

/-- A window function has the parameters of its operands; offsets and positions are text. -/
theorem WindowFunction.mem_params_assemble {function : WindowFunction Expr} {f : Fragment}
    (h : function.assemble ctx visit = some f) :
    p ∈ f.params ↔ ∃ c ∈ function.children, p ∈ (visit c).params := by
  have shift {name : String} {input : Expr} {offset : Int64} {default : Option Expr}
      (h : assembleShift visit name input offset default = some f) :
      p ∈ f.params ↔ ∃ c ∈ input :: default.toList, p ∈ (visit c).params := by
    rw [assembleShift] at h
    split at h
    · cases h
      cases default <;> simp
    · cases h
  cases function with
  | aggregate agg =>
      rw [assemble] at h
      split at h
      · exact AggregateCall.mem_params_assemble h
      · cases h
  | rowNumber | rank | denseRank | percentRank | cumeDist =>
      cases h
      simp [children]
  | ntile input | firstValue input | lastValue input =>
      cases h
      simp [children]
  | lag input offset default => exact shift h
  | lead input offset default => exact shift h
  | nthValue input n =>
      rw [assemble] at h
      split at h
      · cases h
        simp [children]
      · cases h

namespace WindowCall

/-- A clause has the parameters of its keys, and one without keys is left out. -/
theorem mem_params_keyClause {announce : String} {keys : List Fragment} :
    (∃ clause ∈ keyClause announce keys, p ∈ clause.params) ↔ ∃ key ∈ keys, p ∈ key.params := by
  rw [keyClause]
  split
  · rename_i empty
    simp [List.isEmpty_iff.mp empty]
  · simp

/-- The clause of a window has the parameters of its partition keys and of its sort keys. -/
theorem mem_params_assembleOver {win : WindowCall Expr} :
    p ∈ (win.assembleOver visit).params ↔
      (∃ c ∈ win.partitionBy, p ∈ (visit c).params) ∨
        ∃ key ∈ win.orderBy, p ∈ (visit key.expr).params := by
  simp only [assembleOver, mem_params_parenthesize, mem_params_words, List.mem_append,
    or_and_right, exists_or, mem_params_keyClause]
  simp

/-- A window has the parameters of its function and those of its clause. -/
theorem mem_params_assemble {win : WindowCall Expr} {f : Fragment}
    (h : win.assemble ctx visit = some f) :
    p ∈ f.params ↔ ∃ c ∈ win.children, p ∈ (visit c).params := by
  obtain ⟨function, called, h⟩ := Option.bind_eq_some_iff.mp h
  split at h
  · cases h
    have inner := WindowFunction.mem_params_assemble (p := p) called
    simp [children, or_and_right, exists_or, inner, mem_params_assembleOver]
  · cases h

end WindowCall

namespace Expr

/-- A function without arguments is text. -/
theorem params_leafCall? {f : ScalarFunction} {g : Fragment}
    (h : Rule.leafCall? ctx f = some g) : g.params = [] := by
  cases f with
  | currentDate | currentTimestamp | pi | rand =>
      cases h
      rfl
  | uuid =>
      rw [Rule.leafCall?] at h
      split at h
      · cases h
        rfl
      · cases h
  | _ => cases h

/-- A call has the parameters of its written arguments and its own, of which only a pattern is one.
-/
theorem mem_params_assembleCall {f : ScalarFunction} {args : List Expr} {g : Fragment}
    (plain : Rule.Kind.ofFunction f ≠ .compositeCall)
    (h : assembleCall ctx visit f args = some g) :
    p ∈ g.params ↔ p ∈ f.ownParameters args ∨
      ∃ c ∈ (call f args).written, p ∈ (visit c).params := by
  cases callForm_of_assembleCall ctx plain h with
  | @named name _ known =>
      have own : f.ownParameters args = [] ∧ (call f args).written = args := by
        rcases known with known | known <;> cases f <;> cases known <;> exact ⟨rfl, rfl⟩
      simp [own]
  | leaf known =>
      have own : f.ownParameters [] = [] ∧ (call f []).written = [] := by
        cases f <;> exact ⟨rfl, rfl⟩
      simp [own, params_leafCall? known]
  | @dateArithmetic name unit date amount known =>
      have own : f.ownParameters [date, amount] = [] ∧
          (call f [date, amount]).written = [date, amount] := by
        cases f <;> cases known <;> exact ⟨rfl, rfl⟩
      simp [own]
  | @format name letters mode input pattern known literal =>
      have own : f.ownParameters [input, pattern] = Parameter.ofPattern mode pattern := by
        cases f <;> cases known <;> rfl
      rw [written_of_formatName? known, own, Parameter.ofPattern, literal]
      simp [or_comm]
  | textPredicate text part known =>
      have own : f.ownParameters [text, part] = [] ∧
          (call f [text, part]).written = [text, part] := by
        cases f <;> cases known <;> exact ⟨rfl, rfl⟩
      rw [mem_params_parenthesize, mem_params_words, Rule.mem_params_textTest? known]
      simp [own]

/-- The parameters of a node are its own and those of its written operands. -/
theorem mem_params_assemble {e : Expr} {f : Fragment}
    (names : ∀ ref f, ctx.resolver ref = some f → f.params = []) (plain : e.kind ≠ .compositeCall)
    (h : e.assemble ctx visit = some f) :
    p ∈ f.params ↔ p ∈ e.ownParameters ∨ ∃ c ∈ e.written, p ∈ (visit c).params := by
  match e with
  | .literal value type => simp [Literal.params_encode h, ownParameters, written, children]
  | .column ref => simp [names ref f h, ownParameters, written, children]
  | .alias child name =>
      cases h
      simp [ownParameters, written, children]
  | .unary op child =>
      cases h
      simp [ownParameters, written, children]
  | .binary op left right =>
      cases h
      simp [ownParameters, written, children]
  | .call g args => exact mem_params_assembleCall plain h
  | .conditional predicate consequent otherwise =>
      cases h
      simp [ownParameters, written, children]
  | .case branches otherwise =>
      rw [assemble] at h
      split at h
      · cases h
        have sides : (∃ c ∈ branches.flatMap fun b => [b.1, b.2], p ∈ (visit c).params) ↔
            ∃ b ∈ branches, p ∈ (visit b.1).params ∨ p ∈ (visit b.2).params := by
          constructor
          · rintro ⟨c, mem, inside⟩
            obtain ⟨b, listed, side⟩ := List.mem_flatMap.mp mem
            rcases List.mem_pair.mp side with rfl | rfl
            · exact ⟨b, listed, .inl inside⟩
            · exact ⟨b, listed, .inr inside⟩
          · rintro ⟨b, listed, inside | inside⟩
            · exact ⟨b.1, List.mem_flatMap.mpr ⟨b, listed, by simp⟩, inside⟩
            · exact ⟨b.2, List.mem_flatMap.mpr ⟨b, listed, by simp⟩, inside⟩
        simp only [ownParameters, written, children, List.mem_append, or_and_right, exists_or,
          sides]
        simp [Rule.branchWords]
      · cases h
  | .pattern kind child regex =>
      cases h
      rw [mem_params_parenthesize, mem_params_words, Rule.mem_params_matchWords kind child regex]
      simp [written, children]
  | .inList child items negated =>
      rw [assemble] at h
      split at h
      · cases h
        simp [ownParameters, written, children, or_and_right, exists_or, or_comm]
      · cases h
  | .inSet child values type negated =>
      obtain ⟨members, encoded, h⟩ := Option.bind_eq_some_iff.mp h
      split at h
      · cases h
        rw [Rule.mem_params_memberTest, Literal.mem_params_encodeAll encoded]
        simp [ownParameters, written, children, or_comm]
      · cases h
  | .cast child target =>
      rw [assemble] at h
      split at h
      · rename_i same
        cases h
        have own : (cast child target).ownParameters = [] := by
          cases target with
          | string => simp [ownParameters, same]
          | _ => rfl
        simp [own, written, children]
      · rw [Conversion.mem_params_convert? h]
        simp [written, children]
  | .aggregate agg =>
      rw [AggregateCall.mem_params_assemble h]
      simp [ownParameters, written, children]
  | .window win =>
      rw [WindowCall.mem_params_assemble h]
      simp [ownParameters, written, children]

end Expr

end Nodes

/-! ## The parameters of a tree -/

namespace Expr

variable {p : Parameter}

/-- What an expression supplies is its own or supplied by a written operand, by the first step of
the way down. -/
theorem supplies_iff {e : Expr} :
    e.Supplies p ↔ p ∈ e.ownParameters ∨ ∃ c ∈ e.written, c.Supplies p := by
  constructor
  · rintro ⟨node, writes, own⟩
    rcases Relation.ReflTransGen.cases_head writes with rfl | ⟨c, mem, rest⟩
    · exact .inl own
    · exact .inr ⟨c, mem, node, rest, own⟩
  · rintro (own | ⟨c, mem, node, rest, own⟩)
    · exact ⟨e, .refl, own⟩
    · exact ⟨node, .head mem rest, own⟩

/-- A value that is bound is the one parameter of its literal. -/
theorem supplies_ofValue {value : Value} (bound : value.isBound = true) :
    (ofValue value).Supplies p ↔ p = ⟨value, value.naturalType⟩ := by
  rw [supplies_iff]
  simp [ofValue, ownParameters, Parameter.ofValues, bound, written, children]

@[simp] theorem supplies_text {s : String} : (Expr.text s).Supplies p ↔ p = .text s :=
  supplies_ofValue rfl

/-- A whole number is text. -/
@[simp] theorem not_supplies_long {n : Int64} : ¬ (Expr.long n).Supplies p := by
  rw [supplies_iff]
  simp [long, ofValue, ownParameters, Parameter.ofValues, Value.isBound, written, children]

@[simp] theorem supplies_binary {op : BinaryOp} {left right : Expr} :
    (binary op left right).Supplies p ↔ left.Supplies p ∨ right.Supplies p := by
  rw [supplies_iff]
  simp [ownParameters, written, children]

/-- Only a cast to a text brings along parameters. -/
theorem supplies_cast {child : Expr} {target : DataType} (other : target ≠ .string) :
    (cast child target).Supplies p ↔ child.Supplies p := by
  have own : (cast child target).ownParameters = [] := by
    cases target with
    | string => exact absurd rfl other
    | _ => rfl
  rw [supplies_iff]
  simp [own, written, children]

/-- What a call supplies, by its own parameters and its written arguments. -/
theorem supplies_call (own : List Parameter) (rest : List Expr) {f : ScalarFunction}
    {args : List Expr} (supplied : f.ownParameters args = own)
    (others : (call f args).written = rest) :
    (call f args).Supplies p ↔ p ∈ own ∨ ∃ c ∈ rest, c.Supplies p := by
  rw [supplies_iff, others, ownParameters, supplied]

end Expr

namespace Composite

variable {p : Parameter}

/-- Days are counted from a first day that is bound, and the offset of the weekday is text. -/
@[simp] theorem supplies_daysSince {start : Weekday} {x : Expr} :
    (daysSince start x).Supplies p ↔ p = .epoch ∨ x.Supplies p := by
  have epoch : (Expr.ofValue (.date Date.epoch)).Supplies p ↔ p = .epoch :=
    Expr.supplies_ofValue rfl
  have days : (daysSinceEpoch x).Supplies p ↔ p = .epoch ∨ x.Supplies p := by
    rw [daysSinceEpoch, Expr.supplies_call [] [.cast x .date, .ofValue (.date Date.epoch)] rfl rfl]
    simp [Expr.supplies_cast, epoch, or_comm]
  simp [daysSince, days]

/-- Arithmetic with constants adds no parameter. -/
@[simp] theorem supplies_weekNumber {start : Weekday} {x : Expr} :
    (weekNumber start x).Supplies p ↔ p = .epoch ∨ x.Supplies p := by
  rw [weekNumber, floor,
    Expr.supplies_call [] [.binary .div (daysSince start x) (.long 7)] rfl rfl]
  simp

/-- Both week numbers are counted from the same first day. -/
theorem supplies_weekDiff {start : Weekday} {later earlier : Expr} :
    (weekDiff start later earlier).Supplies p ↔
      p = .epoch ∨ later.Supplies p ∨ earlier.Supplies p := by
  rw [weekDiff, Expr.supplies_binary, supplies_weekNumber, supplies_weekNumber,
    ← or_or_distrib_left]

/-- The date stands in the tree several times, but supplies the same parameters each time. -/
theorem supplies_nextDay {day : Weekday} {date : Expr} :
    (nextDay day date).Supplies p ↔ p = .epoch ∨ date.Supplies p := by
  have days : (daysIntoWeek day date).Supplies p ↔ p = .epoch ∨ date.Supplies p := by
    simp [daysIntoWeek]
  rw [nextDay, Expr.supplies_call []
    [.cast date .date, .binary .sub (.long 7) (daysIntoWeek day date)] rfl rfl]
  simp [Expr.supplies_cast, days, or_left_comm]

@[simp] theorem supplies_utc : utc.Supplies p ↔ p = .utc :=
  Expr.supplies_text

/-- A local date is the instant in another time zone, away from the one in which it is kept. -/
theorem supplies_localDate {instant zone : Expr} :
    (localDate instant zone).Supplies p ↔ p = .utc ∨ instant.Supplies p ∨ zone.Supplies p := by
  rw [localDate, Expr.supplies_cast (by decide),
    Expr.supplies_call [] [instant, utc, zone] rfl rfl]
  simp [or_left_comm]

/-- The way there and back names the same two time zones. -/
theorem supplies_dayStart {instant zone : Expr} :
    (dayStart instant zone).Supplies p ↔ p = .utc ∨ instant.Supplies p ∨ zone.Supplies p := by
  have args : (dayStart instant zone).Supplies p ↔
      (localDate instant zone).Supplies p ∨ zone.Supplies p ∨ p = .utc := by
    rw [dayStart, Expr.supplies_call []
      [.cast (localDate instant zone) .timestamp, zone, utc] rfl rfl]
    simp [Expr.supplies_cast]
  rw [args, supplies_localDate]
  constructor
  · rintro (date | again | again)
    · exact date
    · exact .inr (.inr again)
    · exact .inl again
  · exact .inl

/-- A composite call supplies what the tree it stands for supplies. -/
theorem supplies_expand {f : ScalarFunction} {args : List Expr} {tree : Expr}
    (h : expand f args = .done tree) : tree.Supplies p ↔ (Expr.call f args).Supplies p := by
  cases expands_of_expand h with
  | dayStart instant zone =>
      rw [supplies_dayStart, Expr.supplies_call [.utc] [instant, zone] rfl rfl]
      simp
  | date input zone =>
      rw [supplies_localDate, Expr.supplies_cast (by decide),
        Expr.supplies_call [.utc] [input, zone] rfl rfl]
      simp
  | parsedDate input format zone =>
      rw [supplies_localDate,
        Expr.supplies_call (Parameter.ofPattern .symbol format) [input] rfl rfl,
        Expr.supplies_call (.utc :: Parameter.ofPattern .symbol format) [input, zone] rfl rfl]
      simp [or_assoc]
  | dayDiff later earlier =>
      rw [Expr.supplies_call [] [.cast later .date, .cast earlier .date] rfl rfl,
        Expr.supplies_call [] [later, earlier] rfl rfl]
      simp [Expr.supplies_cast]
  | weekDiff _ later earlier =>
      rw [supplies_weekDiff, Expr.supplies_call [.epoch] [later, earlier] rfl rfl]
      simp
  | nextDay _ date =>
      rw [supplies_nextDay, Expr.supplies_call [.epoch] [date] rfl rfl]
      simp
  | weekdayName date =>
      rw [Expr.supplies_call [.text "%W"] [date] rfl rfl,
        Expr.supplies_call [.text "%W"] [date] rfl rfl]
  | formattedTime seconds format =>
      have instant : (Expr.call .fromUnixTime [seconds]).Supplies p ↔ seconds.Supplies p := by
        rw [Expr.supplies_call [] [seconds] rfl rfl]
        simp
      rw [Expr.supplies_call (Parameter.ofPattern .symbol format)
          [.call .fromUnixTime [seconds]] rfl rfl,
        Expr.supplies_call (Parameter.ofPattern .symbol format) [seconds] rfl rfl]
      simp [instant]

end Composite

namespace Expr

variable {ctx : Context} {p : Parameter}

/-- Columns under their own names or under mapped ones have no parameters. -/
theorem params_resolver (names : ctx.WritesNames) {ref : ColumnRef} {f : Fragment}
    (h : ctx.resolver ref = some f) : f.params = [] := by
  rcases names with own | ⟨m, mapped⟩
  · rw [own, quotedColumns] at h
    split at h
    · cases h
      rfl
    · cases h
      rfl
  · rw [mapped] at h
    obtain ⟨name, -, rfl⟩ := Option.map_eq_some_iff.mp h
    rfl

/-- The parameters of a lowered expression are those that it supplies. -/
theorem mem_params_iff_supplies (names : ctx.WritesNames) {e : Expr} {f : Fragment}
    (done : (e.lower ctx).outcome = .done f) : p ∈ f.params ↔ e.Supplies p := by
  induction e using lowering_induction generalizing f with
  | step e operand expansion =>
      by_cases composite : e.kind = .compositeCall
      · obtain ⟨tree, stands, same⟩ := (lower_eq_done_of_composite composite).mp done
        cases e with
        | call g args =>
            rw [expansion tree stands same]
            exact Composite.supplies_expand stands
        | _ => cases stands
      · obtain ⟨lowered, assembled⟩ := (lower_eq_done_iff composite).mp done
        rw [mem_params_assemble (fun _ _ => params_resolver names) composite assembled,
          supplies_iff]
        refine or_congr_right (exists_congr fun c => and_congr_right fun mem => ?_)
        have child := mem_children_of_mem_written mem
        exact operand c child (lowered c child).outcome_eq

/-- The parameters of a lowered text are those that the written nodes of the expression supply, no
others and all of them; and all nodes are written but date patterns and weekdays. -/
theorem lowerRoot_params (names : ctx.WritesNames) {e : Expr} {f : Fragment}
    (h : (e.lowerRoot ctx).outcome = .done f) :
    (∀ p, p ∈ f.render.params ↔ ∃ node, e.Writes node ∧ p ∈ node.ownParameters) ∧
      ∀ node, e.HasPart node → e.Writes node ∨ e.HasDirective node := by
  obtain ⟨g, lowered, shape⟩ := exists_lower_of_lowerRoot h
  refine ⟨fun p => ?_, fun node => writes_or_hasDirective ⟨g, lowered⟩⟩
  have whole : p ∈ g.params ↔ e.Supplies p := mem_params_iff_supplies names lowered
  rcases shape with rfl | ⟨name, rfl⟩
  · exact whole
  · have named : p ∈ (g.aliased name).params ↔ p ∈ g.params := by simp [aliased]
    exact named.trans whole

/-- The name of a weekday looked for in a set: the pattern of the call and two of the three members
are parameters, and each of them is supplied. -/
theorem lowerRoot_params_of_weekday_set :
    ∃ f, ((Expr.alias (.inSet (.call .dayOfWeekName [.column ⟨1, "day", none, .date⟩])
        [.null, .bool true, .string "Monday"] .string false) "found").lowerRoot {}).outcome =
          .done f ∧
      f.render.params = [.text "%W", ⟨.null, .string⟩, .text "Monday"] ∧
      ∀ p ∈ f.render.params, ∃ node, (Expr.alias (.inSet (.call .dayOfWeekName
        [.column ⟨1, "day", none, .date⟩]) [.null, .bool true, .string "Monday"] .string false)
          "found").Writes node ∧ p ∈ node.ownParameters := by
  have root : ((Expr.alias (.inSet (.call .dayOfWeekName [.column ⟨1, "day", none, .date⟩])
      [.null, .bool true, .string "Monday"] .string false) "found").lowerRoot {}).outcome =
        .done ((Rule.memberTest (func "DATE_FORMAT" [.ident "day", bindText "%W"])
          [.bind .null .string, .raw "TRUE", bindText "Monday"] false).aliased "found") := by
    rw [lowerRoot, lower_inSet, lower_compositeCall _ rfl]
    simp only [Composite.expand, Lowering.outcome_bind, Lowering.outcome_ofOutcome,
      Outcome.done_bind]
    rw [lower_formatFunction _ rfl, lower_column]
    rfl
  exact ⟨_, root, rfl, fun p => ((lowerRoot_params (.inl rfl) root).1 p).mp⟩

end Expr

end SqlLowering
