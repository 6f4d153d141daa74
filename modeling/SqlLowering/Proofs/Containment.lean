import Mathlib.Logic.Relation
import SqlLowering.Proofs.Assembly

/-!
# Nothing is left out

Lowering is all or nothing. An expression has a result only if every part of it has one, however
deep it lies, and the fragment of each part stands somewhere in the fragment of the whole. The only
parts that are not written are directives: a date pattern, which is converted first, and the name of
a weekday, which chooses the tree that a call stands for. A directive is always a string literal.

Main statement: `Expr.lower_contains_parts`. What one node does is read off `assemble`; a composite
call keeps its arguments because the tree it stands for does.
-/

namespace SqlLowering

open Dialect Fragment

namespace Fragment

/-- A fragment stands somewhere in another one, or is that one. -/
inductive Within : Fragment → Fragment → Prop where
  | refl (f : Fragment) : Within f f
  | part {g f : Fragment} {parts : List Fragment} {separator : String} {parens : Bool}
      (mem : f ∈ parts) (inside : Within g f) : Within g (.composite parts separator parens)

namespace Within

/-- What stands in a part stands in the whole, at whatever depth. -/
theorem trans {f g h : Fragment} (inner : f.Within g) (outer : g.Within h) : f.Within h := by
  induction outer with
  | refl => exact inner
  | part mem _ ih => exact .part mem ih

variable {f g h : Fragment} {parts : List Fragment}

theorem join (separator : String) (mem : f ∈ parts) (inside : g.Within f) :
    g.Within (Fragment.join parts separator) :=
  .part mem inside

theorem words (mem : f ∈ parts) (inside : g.Within f) : g.Within (Fragment.words parts) :=
  .part mem inside

theorem parenthesize (inside : g.Within f) : g.Within (Fragment.parenthesize f) :=
  .part List.mem_cons_self inside

theorem concat_left (separator : String) (inside : g.Within f) :
    g.Within (Fragment.concat f h separator) :=
  .part List.mem_cons_self inside

theorem concat_right (separator : String) (inside : g.Within h) :
    g.Within (Fragment.concat f h separator) :=
  .part (List.mem_cons_of_mem _ List.mem_cons_self) inside

/-- The arguments of a function stand in the parentheses after its name. -/
theorem func (name : String) (mem : f ∈ parts) (inside : g.Within f) :
    g.Within (Fragment.func name parts) :=
  .part (List.mem_cons_of_mem _ List.mem_cons_self) (.part mem inside)

end Within

end Fragment

/-- The place of the argument that directs how a call is lowered: a date pattern, or the name of a
weekday. -/
def ScalarFunction.directive? (f : ScalarFunction) (arity : Nat) : Option Nat :=
  match f, arity with
  | .dateFormat, 2 | .strToDate, 2 | .toChar, 2 | .toDate, 2 | .toTimestamp, 2
  | .fromUnixTimeFormatted, 2 | .stringToDateInTimezone, 3 | .nextDay, 2 => some 1
  | .weekDiff, 3 => some 2
  | _, _ => none

namespace Expr

/-- The operand that directs how a node is lowered. -/
def directive? : Expr → Option Expr
  | .call f args => f.directive? args.length >>= fun i => args[i]?
  | _ => none

/-- The operands of a node that are written, which are all but the directive. -/
def written : Expr → List Expr
  | .call f args =>
    match f.directive? args.length with
    | some i => args.eraseIdx i
    | none => args
  | e => e.children

/-- An expression, or a part of one of its operands. -/
def HasPart : Expr → Expr → Prop :=
  Relation.ReflTransGen fun e c => c ∈ e.children

/-- An expression, or a written part of one of its written operands. -/
def Writes : Expr → Expr → Prop :=
  Relation.ReflTransGen fun e c => c ∈ e.written

/-- A string literal that directs how some call in an expression is lowered. -/
def HasDirective (e c : Expr) : Prop :=
  ∃ node letters, e.HasPart node ∧ node.directive? = some c ∧ c.stringLiteral? = some letters

/-- A written operand is an operand; a directive is only left out. -/
theorem mem_children_of_mem_written {e c : Expr} (h : c ∈ e.written) : c ∈ e.children := by
  cases e with
  | call f args =>
      rw [written] at h
      split at h
      · exact List.mem_of_mem_eraseIdx h
      · exact h
  | _ => exact h

/-- An operand is written or is the directive. -/
theorem mem_written_or_directive {e c : Expr} (h : c ∈ e.children) :
    c ∈ e.written ∨ e.directive? = some c := by
  cases e with
  | call f args =>
      cases place : f.directive? args.length with
      | none =>
          left
          rw [written, place]
          exact h
      | some i =>
          obtain ⟨j, bound, rfl⟩ := List.mem_iff_getElem.mp h
          by_cases same : j = i
          · right
            rw [directive?, place, ← same]
            exact List.getElem?_eq_getElem bound
          · left
            rw [written, place]
            exact List.mem_eraseIdx_iff_getElem.mpr ⟨j, bound, same, rfl⟩
  | _ => exact .inl h

/-- What is written of an expression is a part of it, step by step. -/
theorem Writes.hasPart {e c : Expr} (h : e.Writes c) : e.HasPart c :=
  Relation.ReflTransGen.mono (fun _ _ => mem_children_of_mem_written) _ _ h

end Expr

/-! ## What one node writes -/

namespace Rule

variable {f : Fragment}

/-- The operand stands behind the operator, or in front of it in a test for null. -/
theorem applyUnary_within (op : UnaryOp) (f : Fragment) : f.Within (applyUnary op f) := by
  cases op with
  | not => exact .concat_right " " (.parenthesize (.refl f))
  | negate | bitNot => exact .concat_right "" (.parenthesize (.refl f))
  | isNull | isNotNull => exact .parenthesize (.concat_left " " (.refl f))

theorem ifElse_within {condition consequent otherwise : Fragment}
    (mem : f ∈ [condition, consequent, otherwise]) :
    f.Within (ifElse condition consequent otherwise) :=
  .func "IF" mem (.refl f)

/-- Conditions and results of all branches stand in the one sequence of words. -/
theorem caseWhen_within_of_branch {branches : List (List Fragment)} {branch : List Fragment}
    (mem : branch ∈ branches) (inside : f ∈ branch) (otherwise : Option Fragment) :
    f.Within (caseWhen branches otherwise) := by
  have part : f ∈ branches.flatten := List.mem_flatten_of_mem mem inside
  refine .words ?_ (.refl f)
  simp [part]

theorem caseWhen_within_of_otherwise (branches : List (List Fragment)) (f : Fragment) :
    f.Within (caseWhen branches (some f)) := by
  refine .words ?_ (.refl f)
  simp

theorem memberTest_within_of_value (value : Fragment) (members : List Fragment)
    (negated : Bool) : value.Within (memberTest value members negated) :=
  .parenthesize (.words List.mem_cons_self (.refl value))

/-- The members stand in parentheses of their own, behind the operator. -/
theorem memberTest_within_of_member (value : Fragment) {members : List Fragment} (negated : Bool)
    (mem : f ∈ members) : f.Within (memberTest value members negated) := by
  have listed : f.Within (parenthesize (join members ", ")) :=
    .parenthesize (.join ", " mem (.refl f))
  refine .parenthesize (.words ?_ listed)
  simp

/-- A match has the text and the pattern, which may stand behind a caret. -/
theorem matchWords_within (kind : MatchKind) {text pattern : Fragment}
    (mem : f ∈ [text, pattern]) : f.Within (words (matchWords kind text pattern)) := by
  have either : f = text ∨ f = pattern := List.mem_pair.mp mem
  cases kind with
  | like escape | regex =>
      refine .words ?_ (.refl f)
      rcases either with rfl | rfl <;> simp [matchWords]
  | regexFromStart =>
      rcases either with rfl | rfl
      · exact .words List.mem_cons_self (.refl f)
      · have anchored : f.Within (func "CONCAT" [.raw "'^'", f]) :=
          .func "CONCAT" (by simp) (.refl f)
        exact .words (by simp [matchWords]) anchored

/-- Each test names both texts; the one at an end of the text names the part twice. -/
theorem textTest?_within {function : ScalarFunction}
    {test : Fragment → Fragment → List Fragment} (tested : textTest? function = some test)
    {text part : Fragment} (mem : f ∈ [text, part]) : f.Within (words (test text part)) := by
  have either : f = text ∨ f = part := List.mem_pair.mp mem
  cases function with
  | contains =>
      cases tested
      have located : f.Within (func "LOCATE" [part, text]) :=
        .func "LOCATE" (by simpa using either.symm) (.refl f)
      exact .words List.mem_cons_self located
  | startsWith | endsWith =>
      cases tested
      rcases either with rfl | rfl
      · exact .words List.mem_cons_self (.func _ List.mem_cons_self (.refl f))
      · exact .words (by simp) (.refl f)
  | _ => cases tested

end Rule

/-- A conversion is written around its operand. -/
theorem Conversion.convert?_within {operand f : Fragment} {source target : DataType}
    (h : convert? operand source target = some f) : operand.Within f := by
  have castAs_within {inner : Fragment} (type : Fragment) (inside : operand.Within inner) :
      operand.Within (castAs inner type) :=
    .join "" (by simp) inside
  cases form_of_convert? h with
  | spelled => exact Rule.ifElse_within List.mem_cons_self
  | cut => exact castAs_within _ (.func "TRUNCATE" List.mem_cons_self (.refl operand))
  | cast mem => exact castAs_within _ (.refl operand)
  | decimal precision scale => exact castAs_within _ (.refl operand)
  | compared => exact .parenthesize (.words List.mem_cons_self (.refl operand))

section Nodes

variable {ctx : Context} {visit : Expr → Fragment}

namespace AggregateCall

/-- The arguments of an aggregate are written with `DISTINCT` in front of them or without. -/
theorem write_within (func : AggregateFunction) (distinct : Bool) {args : List Fragment}
    {f g : Fragment} (mem : f ∈ args) (inside : g.Within f) :
    g.Within (write func distinct args) := by
  rw [write]
  split
  · exact .concat_right "" (.parenthesize (.concat_right " " (.join ", " mem inside)))
  · exact .func _ mem inside

/-- A filter puts a condition around the argument, which is still there. -/
theorem restrict_within (filter : Option Fragment) (arg : Fragment) :
    arg.Within (restrict filter arg) := by
  cases filter with
  | none => exact .refl arg
  | some condition => exact Rule.ifElse_within (by simp)

/-- The filter stands in every argument, and a count of rows has one made for it. -/
theorem assemble_within {agg : AggregateCall Expr} {f : Fragment}
    (h : agg.assemble ctx visit = some f) : ∀ c ∈ agg.children, (visit c).Within f := by
  have filter_within {c : Expr} (given : agg.filter = some c) (arg : Fragment) :
      (visit c).Within (restrict (agg.filter.map visit) arg) := by
    rw [given]
    exact Rule.ifElse_within List.mem_cons_self
  intro c mem
  have mem : agg.filter = some c ∨ c ∈ agg.args := by simpa [children] using mem
  simp only [assemble] at h
  split at h
  · cases args : agg.args with
    | nil =>
        rw [args] at h mem
        cases h
        have given : agg.filter = some c := by simpa using mem
        have rows : rowArguments (agg.filter.map visit) =
            [restrict (agg.filter.map visit) (.int 1)] := by
          rw [given]
          rfl
        rw [rows]
        exact write_within _ _ List.mem_cons_self (filter_within given _)
    | cons first rest =>
        rw [args] at h mem
        cases h
        -- Any argument shows the filter; there is at least one.
        rcases mem with given | mem
        · exact write_within _ _ List.mem_cons_self (filter_within given (visit first))
        · have written := List.mem_map_of_mem (f := restrict (agg.filter.map visit))
            (List.mem_map_of_mem (f := visit) mem)
          exact write_within _ _ written (restrict_within _ _)
  · cases h

end AggregateCall

/-- A window function is written around its operands, and the default of a shift stands behind the
offset. -/
theorem WindowFunction.assemble_within {function : WindowFunction Expr} {f : Fragment}
    (h : function.assemble ctx visit = some f) : ∀ c ∈ function.children, (visit c).Within f := by
  have shift {name : String} {input : Expr} {offset : Int64} {default : Option Expr}
      (h : assembleShift visit name input offset default = some f) :
      ∀ c ∈ input :: default.toList, (visit c).Within f := by
    intro c mem
    rw [assembleShift] at h
    split at h
    · cases h
      refine .func name ?_ (.refl _)
      rcases List.mem_cons.mp mem with rfl | mem
      · exact List.mem_cons_self
      · have given : default = some c := Option.mem_toList.mp mem
        simp [given]
    · cases h
  cases function with
  | aggregate agg =>
      rw [assemble] at h
      split at h
      · exact AggregateCall.assemble_within h
      · cases h
  | rowNumber | rank | denseRank | percentRank | cumeDist => simp [children]
  | ntile input | firstValue input | lastValue input =>
      intro c mem
      cases h
      rw [List.mem_singleton.mp mem]
      exact .func _ List.mem_cons_self (.refl _)
  | lag input offset default => exact shift h
  | lead input offset default => exact shift h
  | nthValue input n =>
      intro c mem
      rw [assemble] at h
      split at h
      · cases h
        rw [List.mem_singleton.mp mem]
        exact .func _ List.mem_cons_self (.refl _)
      · cases h

namespace WindowCall

/-- A clause is left out only if it has no keys. -/
theorem keyClause_within (announce : String) {keys : List Fragment} {f g : Fragment}
    (mem : f ∈ keys) (inside : g.Within f) :
    ∃ clause ∈ keyClause announce keys, g.Within clause := by
  have some_key : ¬ keys.isEmpty := by
    rw [List.isEmpty_iff]
    exact List.ne_nil_of_mem mem
  rw [keyClause, if_neg some_key]
  exact ⟨_, List.mem_singleton_self _, .concat_right " " (.join ", " mem inside)⟩

/-- Partition keys and sort keys stand in the parentheses of the window. -/
theorem assembleOver_within {win : WindowCall Expr} {c : Expr}
    (mem : c ∈ win.partitionBy ∨ ∃ key ∈ win.orderBy, key.expr = c) :
    (visit c).Within (win.assembleOver visit) := by
  rw [assembleOver]
  rcases mem with mem | ⟨key, mem, rfl⟩
  · obtain ⟨clause, found, inside⟩ :=
      keyClause_within "PARTITION BY" (List.mem_map_of_mem (f := visit) mem) (.refl _)
    refine .parenthesize (.words ?_ inside)
    simp [found]
  · have sorted := List.mem_map_of_mem (f := fun key : SortKey Expr =>
      concat (visit key.expr) (.raw (directionWord key.direction)) " ") mem
    obtain ⟨clause, found, inside⟩ :=
      keyClause_within "ORDER BY" sorted (.concat_left " " (.refl _))
    refine .parenthesize (.words ?_ inside)
    simp [found]

/-- A window is written as its function and its clause, which have all operands between them. -/
theorem assemble_within {win : WindowCall Expr} {f : Fragment}
    (h : win.assemble ctx visit = some f) : ∀ c ∈ win.children, (visit c).Within f := by
  obtain ⟨function, called, h⟩ := Option.bind_eq_some_iff.mp h
  split at h
  · cases h
    intro c mem
    rw [children, List.append_assoc, List.mem_append] at mem
    rcases mem with mem | mem
    · exact .words List.mem_cons_self (WindowFunction.assemble_within called c mem)
    · have key : c ∈ win.partitionBy ∨ ∃ key ∈ win.orderBy, key.expr = c := by simpa using mem
      exact .words (by simp) (assembleOver_within key)
  · cases h

end WindowCall

namespace Expr

/-- Of a call with a pattern only the input is written as it is. -/
theorem written_of_formatName? {f : ScalarFunction} {name : String} {mode : Format.Mode}
    (known : Rule.formatName? f = some (name, mode)) (input pattern : Expr) :
    (call f [input, pattern]).written = [input] := by
  cases f <;> first | rfl | cases known

/-- A call is written around its arguments in each of its forms, except for a pattern. -/
theorem assembleCall_within {f : ScalarFunction} {args : List Expr} {g : Fragment}
    (plain : Rule.Kind.ofFunction f ≠ .compositeCall)
    (h : assembleCall ctx visit f args = some g) :
    ∀ c ∈ (call f args).written, (visit c).Within g := by
  intro c mem
  have argument : visit c ∈ args.map visit :=
    List.mem_map_of_mem (mem_children_of_mem_written mem)
  cases callForm_of_assembleCall ctx plain h with
  | named _ known => exact .func _ argument (.refl _)
  | leaf known => cases argument
  | @dateArithmetic name unit date amount known =>
      rcases List.mem_pair.mp argument with same | same <;> rw [same]
      · exact .func name List.mem_cons_self (.refl _)
      · have interval : (visit amount).Within (words [.raw "INTERVAL", visit amount, .raw unit]) :=
          .words (by simp) (.refl _)
        exact .func name (by simp) interval
  | format input known literal =>
      rw [written_of_formatName? known, List.mem_singleton] at mem
      rw [mem]
      exact .func _ List.mem_cons_self (.refl _)
  | textPredicate text part known =>
      exact .parenthesize (Rule.textTest?_within known argument)

/-- A node that is no composite call is written around its operands. -/
theorem assemble_within {e : Expr} {f : Fragment} (plain : e.kind ≠ .compositeCall)
    (h : e.assemble ctx visit = some f) : ∀ c ∈ e.written, (visit c).Within f := by
  intro c mem
  match e with
  | .literal value type => cases mem
  | .column ref => cases mem
  | .alias child name =>
      cases h
      rw [List.mem_singleton.mp mem]
      exact .refl _
  | .unary op child =>
      cases h
      rw [List.mem_singleton.mp mem]
      exact Rule.applyUnary_within op _
  | .binary op left right =>
      cases h
      refine .parenthesize (.words ?_ (.refl _))
      rcases List.mem_pair.mp mem with rfl | rfl <;> simp
  | .call function args => exact assembleCall_within plain h c mem
  | .conditional predicate consequent otherwise =>
      cases h
      exact Rule.ifElse_within (List.mem_map_of_mem mem)
  | .case branches otherwise =>
      rw [assemble] at h
      split at h
      · cases h
        rcases List.mem_append.mp mem with mem | mem
        · obtain ⟨branch, found, side⟩ := List.mem_flatMap.mp mem
          have words := List.mem_map_of_mem
            (f := fun b : Expr × Expr => Rule.branchWords (visit b.1) (visit b.2)) found
          refine Rule.caseWhen_within_of_branch words ?_ _
          rcases List.mem_pair.mp side with rfl | rfl <;> simp [Rule.branchWords]
        · have given : otherwise = some c := Option.mem_toList.mp mem
          rw [given]
          exact Rule.caseWhen_within_of_otherwise _ _
      · cases h
  | .pattern kind child regex =>
      cases h
      exact .parenthesize (Rule.matchWords_within kind (List.mem_map_of_mem mem))
  | .inList child items negated =>
      rw [assemble] at h
      split at h
      · cases h
        rcases List.mem_append.mp mem with mem | mem
        · exact Rule.memberTest_within_of_member _ negated (List.mem_map_of_mem mem)
        · rw [List.mem_singleton.mp mem]
          exact Rule.memberTest_within_of_value _ _ negated
      · cases h
  | .inSet child values type negated =>
      obtain ⟨members, -, h⟩ := Option.bind_eq_some_iff.mp h
      split at h
      · cases h
        rw [List.mem_singleton.mp mem]
        exact Rule.memberTest_within_of_value _ _ negated
      · cases h
  | .cast child target =>
      rw [List.mem_singleton.mp mem]
      rw [assemble] at h
      split at h
      · cases h
        exact .refl _
      · exact Conversion.convert?_within h
  | .aggregate agg => exact AggregateCall.assemble_within h c mem
  | .window win => exact WindowCall.assemble_within h c mem

/-- The members of a set have a text each, and all of them are written. -/
theorem assemble_inSet_within {child : Expr} {values : List Value} {type : DataType}
    {negated : Bool} {f : Fragment}
    (h : (inSet child values type negated).assemble ctx visit = some f) :
    ∀ value ∈ values, ∃ g, Literal.encode value type = some g ∧ g.Within f := by
  obtain ⟨members, encoded, h⟩ := Option.bind_eq_some_iff.mp h
  intro value mem
  have listed : Literal.encode value type ∈ members.map some := by
    rw [← Literal.encodeAll_eq_some.mp encoded]
    exact List.mem_map_of_mem mem
  obtain ⟨g, member, same⟩ := List.mem_map.mp listed
  refine ⟨g, same.symm, ?_⟩
  split at h
  · cases h
    exact Rule.memberTest_within_of_member _ negated member
  · cases h

end Expr

end Nodes

/-! ## Composite calls keep their arguments -/

namespace Composite

open Relation (ReflTransGen)

/-- One step down and the rest of the way. -/
theorem writes_of_mem {e c x : Expr} (mem : c ∈ e.written) (rest : c.Writes x) : e.Writes x :=
  ReflTransGen.head mem rest

/-- A cast adds nothing but a type, so it writes what its operand writes. -/
theorem cast_writes {x y : Expr} (target : DataType) (inside : x.Writes y) :
    (Expr.cast x target).Writes y :=
  writes_of_mem List.mem_cons_self inside

/-- The number of a week is computed from the date by arithmetic with constants. -/
theorem weekNumber_writes (start : Calendar.Weekday) (x : Expr) :
    (weekNumber start x).Writes x := by
  have days : (daysSinceEpoch x).Writes x :=
    writes_of_mem List.mem_cons_self (cast_writes .date .refl)
  have since : (daysSince start x).Writes x := writes_of_mem List.mem_cons_self days
  have quotient : (Expr.binary .div (daysSince start x) (.long 7)).Writes x :=
    writes_of_mem List.mem_cons_self since
  exact writes_of_mem List.mem_cons_self quotient

/-- A local date is computed from the instant, by a change of time zone and a cast. -/
theorem localDate_writes_instant {instant x : Expr} (zone : Expr) (inside : instant.Writes x) :
    (localDate instant zone).Writes x :=
  cast_writes .date (writes_of_mem List.mem_cons_self inside)

/-- The time zone is the last argument of the change. -/
theorem localDate_writes_zone (instant zone : Expr) : (localDate instant zone).Writes zone := by
  have converted : (Expr.call .convertTz [instant, utc, zone]).Writes zone :=
    writes_of_mem (List.mem_of_getElem? (i := 2) rfl) .refl
  exact cast_writes .date converted

/-- The start of a day goes to the local date and back, so the time zone is written twice. -/
theorem dayStart_writes {instant zone x : Expr} (h : x ∈ [instant, zone]) :
    (dayStart instant zone).Writes x := by
  rcases List.mem_pair.mp h with rfl | rfl
  · have date : (localDate x zone).Writes x := localDate_writes_instant zone .refl
    exact writes_of_mem List.mem_cons_self (cast_writes .timestamp date)
  · exact writes_of_mem (List.mem_of_getElem? (i := 1) rfl) .refl

/-- A weekday is chosen by the content of a literal only. -/
theorem exists_of_weekday_eq_done {e : Expr} {day : Calendar.Weekday} (h : weekday e = .done day) :
    ∃ letters, e.stringLiteral? = some letters := by
  rw [weekday] at h
  cases literal : e.stringLiteral? with
  | none =>
      rw [literal] at h
      cases h
  | some letters => exact ⟨letters, rfl⟩

/-- The tree of a composite call writes every argument that is not a directive. -/
theorem expand_writes {f : ScalarFunction} {args : List Expr} {tree c : Expr}
    (h : expand f args = .done tree) (mem : c ∈ (Expr.call f args).written) : tree.Writes c := by
  cases expands_of_expand h with
  | dayStart instant zone => exact dayStart_writes mem
  | date input zone =>
      rcases List.mem_pair.mp mem with rfl | rfl
      · exact localDate_writes_instant zone (cast_writes .timestamp .refl)
      · exact localDate_writes_zone _ c
  | parsedDate input format zone =>
      rcases List.mem_pair.mp mem with rfl | rfl
      · exact localDate_writes_instant zone (writes_of_mem List.mem_cons_self .refl)
      · exact localDate_writes_zone _ c
  | dayDiff later earlier =>
      rcases List.mem_pair.mp mem with rfl | rfl
      · exact writes_of_mem List.mem_cons_self (cast_writes .date .refl)
      · exact writes_of_mem (List.mem_of_getElem? (i := 1) rfl) (cast_writes .date .refl)
  | @weekDiff _ day _ later earlier =>
      rcases List.mem_pair.mp mem with rfl | rfl
      · exact writes_of_mem List.mem_cons_self (weekNumber_writes day c)
      · exact writes_of_mem (List.mem_of_getElem? (i := 1) rfl) (weekNumber_writes day c)
  | nextDay _ date =>
      rw [List.mem_singleton.mp mem]
      exact writes_of_mem List.mem_cons_self (cast_writes .date .refl)
  | weekdayName date =>
      rw [List.mem_singleton.mp mem]
      exact writes_of_mem List.mem_cons_self .refl
  | formattedTime seconds format =>
      rw [List.mem_singleton.mp mem]
      exact writes_of_mem List.mem_cons_self (writes_of_mem List.mem_cons_self .refl)

/-- The directive of a composite call is a weekday, or the pattern of a call in its tree. -/
theorem expand_directive {f : ScalarFunction} {args : List Expr} {tree c : Expr}
    (h : expand f args = .done tree) (directive : (Expr.call f args).directive? = some c) :
    (∃ letters, c.stringLiteral? = some letters) ∨
      ∃ g input, Rule.Kind.ofFunction g = .formatFunction ∧ tree.HasPart (.call g [input, c]) := by
  cases expands_of_expand h with
  | dayStart | date | dayDiff | weekdayName => cases directive
  | weekDiff named later earlier =>
      cases directive
      exact .inl (exists_of_weekday_eq_done named)
  | nextDay named date =>
      cases directive
      exact .inl (exists_of_weekday_eq_done named)
  | parsedDate input format zone =>
      cases directive
      have parsed : (localDate (.call .strToDate [input, c]) zone).Writes
          (.call .strToDate [input, c]) := localDate_writes_instant zone .refl
      exact .inr ⟨.strToDate, input, rfl, parsed.hasPart⟩
  | formattedTime seconds format =>
      cases directive
      exact .inr ⟨.dateFormat, _, rfl, .refl⟩

end Composite

/-! ## All parts of an expression -/

namespace Expr

variable {ctx : Context} {e c : Expr} {f : Fragment}

/-- If an expression has a result, all its parts have one. A composite call is answered for by its
tree, which has the arguments as parts. -/
theorem isLowered_of_hasPart (lowered : e.IsLowered ctx) (part : e.HasPart c) :
    c.IsLowered ctx := by
  induction e using lowering_induction generalizing c with
  | step e operand expansion =>
      rcases Relation.ReflTransGen.cases_head part with rfl | ⟨child, mem, rest⟩
      · exact lowered
      · refine operand child mem ?_ rest
        obtain ⟨f, done⟩ := lowered
        by_cases composite : e.kind = .compositeCall
        · obtain ⟨tree, stands, same⟩ := (lower_eq_done_of_composite composite).mp done
          have parts {p : Expr} (part : tree.HasPart p) : p.IsLowered ctx :=
            expansion tree stands ⟨f, same⟩ part
          cases e with
          | call g args =>
              rcases mem_written_or_directive mem with written | directive
              · exact parts (Composite.expand_writes stands written).hasPart
              · rcases Composite.expand_directive stands directive with ⟨s, literal⟩ | pattern
                · exact isLowered_of_stringLiteral? ctx literal
                · obtain ⟨g, input, -, node⟩ := pattern
                  exact parts (node.tail (second_mem_children g input child))
          | _ => cases stands
        · exact ((lower_eq_done_iff composite).mp done).1 child mem

/-- The fragment of a written part stands in the fragment of the whole. -/
theorem within_of_writes (done : (e.lower ctx).outcome = .done f) (writes : e.Writes c) :
    (c.fragment ctx).Within f := by
  induction e using lowering_induction generalizing f c with
  | step e operand expansion =>
      rcases Relation.ReflTransGen.cases_head writes with rfl | ⟨child, mem, rest⟩
      · rw [fragment_eq done]
        exact .refl f
      · by_cases composite : e.kind = .compositeCall
        · obtain ⟨tree, stands, same⟩ := (lower_eq_done_of_composite composite).mp done
          cases e with
          | call g args =>
              -- The way to the argument inside the tree goes on as the way below the argument.
              have kept : tree.Writes child := Composite.expand_writes stands mem
              exact expansion tree stands same (kept.trans rest)
          | _ => cases stands
        · obtain ⟨lowered, assembled⟩ := (lower_eq_done_iff composite).mp done
          have mem' : child ∈ e.children := mem_children_of_mem_written mem
          have inner : (c.fragment ctx).Within (child.fragment ctx) :=
            operand child mem' (lowered child mem').outcome_eq rest
          exact inner.trans (assemble_within composite assembled child mem)

/-- The pattern of a call that has a result is a string literal. -/
theorem exists_stringLiteral?_of_format {g : ScalarFunction} {input pattern : Expr}
    (kind : Rule.Kind.ofFunction g = .formatFunction)
    (lowered : (call g [input, pattern]).IsLowered ctx) :
    ∃ letters, pattern.stringLiteral? = some letters := by
  have plain : (call g [input, pattern]).kind ≠ .compositeCall := by
    intro composite
    rw [Expr.kind, kind] at composite
    cases composite
  obtain ⟨f, done⟩ := lowered
  obtain ⟨-, assembled⟩ := (lower_eq_done_iff plain).mp done
  exact exists_stringLiteral?_of_assembleCall ctx kind assembled

/-- Only composite calls and calls with a date pattern have a directive. -/
theorem exists_format_of_directive? {g : ScalarFunction} {args : List Expr}
    (plain : Rule.Kind.ofFunction g ≠ .compositeCall)
    (directive : (call g args).directive? = some c) :
    Rule.Kind.ofFunction g = .formatFunction ∧ ∃ input, args = [input, c] := by
  obtain ⟨i, place, found⟩ := Option.bind_eq_some_iff.mp directive
  unfold ScalarFunction.directive? at place
  split at place
  case h_1 | h_2 | h_3 | h_4 | h_5 =>
    rename_i pair
    obtain ⟨input, pattern, rfl⟩ := List.length_eq_two.mp pair
    cases place
    cases found
    exact ⟨rfl, input, rfl⟩
  case h_10 => cases place
  all_goals exact absurd rfl plain

/-- The directive of a node that has a result is a string literal. -/
theorem exists_stringLiteral?_of_directive? (lowered : e.IsLowered ctx)
    (directive : e.directive? = some c) : ∃ letters, c.stringLiteral? = some letters := by
  cases e with
  | call g args =>
      by_cases composite : (call g args).kind = .compositeCall
      · obtain ⟨f, done⟩ := lowered
        obtain ⟨tree, stands, same⟩ := (lower_eq_done_of_composite composite).mp done
        rcases Composite.expand_directive stands directive with literal | pattern
        · exact literal
        · obtain ⟨g, input, kind, node⟩ := pattern
          exact exists_stringLiteral?_of_format kind (isLowered_of_hasPart ⟨f, same⟩ node)
      · obtain ⟨kind, input, rfl⟩ := exists_format_of_directive? composite directive
        exact exists_stringLiteral?_of_format kind lowered
  | _ => cases directive

/-- A literal is a leaf. -/
theorem children_of_stringLiteral? {letters : String} (h : e.stringLiteral? = some letters) :
    e.children = [] := by
  cases e with
  | literal value type => rfl
  | _ => cases h

/-- Every part of an expression that has a result is written, except for directives. A directive
has no parts of its own, so nothing is lost below it. -/
theorem writes_or_hasDirective (lowered : e.IsLowered ctx) (part : e.HasPart c) :
    e.Writes c ∨ e.HasDirective c := by
  induction part with
  | refl => exact .inl .refl
  | @tail node c above mem ih =>
      rcases ih with writes | ⟨_, letters, -, -, literal⟩
      · rcases mem_written_or_directive mem with written | directive
        · exact .inl (writes.tail written)
        · obtain ⟨letters, literal⟩ :=
            exists_stringLiteral?_of_directive? (isLowered_of_hasPart lowered above) directive
          exact .inr ⟨node, letters, above, directive, literal⟩
      · rw [children_of_stringLiteral? literal] at mem
        cases mem

/-- If an expression has a result, then every part of it has one, and the result of the part stands
in the result of the whole, unless the part is the date pattern or the weekday of a call. So a
single part without a result leaves the whole without one, and no operand is dropped. The members
of every set have a text each, which is written too. -/
theorem lower_contains_parts (done : (e.lower ctx).outcome = .done f) :
    (∀ c, e.HasPart c → ∃ g, (c.lower ctx).outcome = .done g ∧ (e.Writes c → g.Within f) ∧
      (e.Writes c ∨ e.HasDirective c)) ∧
    ∀ child values type negated, e.HasPart (.inSet child values type negated) →
      ∀ value ∈ values, ∃ g, Literal.encode value type = some g ∧ g.Within f := by
  have lowered : e.IsLowered ctx := ⟨f, done⟩
  constructor
  · intro c part
    have result := (isLowered_of_hasPart lowered part).outcome_eq
    exact ⟨c.fragment ctx, result, within_of_writes done, writes_or_hasDirective lowered part⟩
  · intro child values type negated part value mem
    have result := (isLowered_of_hasPart lowered part).outcome_eq
    have plain : (inSet child values type negated).kind ≠ .compositeCall := by
      intro composite
      cases composite
    obtain ⟨g, encoded, inside⟩ :=
      assemble_inSet_within ((lower_eq_done_iff plain).mp result).2 value mem
    have writes : e.Writes (.inSet child values type negated) := by
      rcases writes_or_hasDirective lowered part with writes | ⟨_, _, _, _, literal⟩
      · exact writes
      · cases literal
    exact ⟨g, encoded, inside.trans (within_of_writes done writes)⟩

/-- The column under a formatted time is written, and the pattern has a result of its own. -/
theorem lower_contains_parts_of_formatted_time :
    ∃ f, ((Expr.call .fromUnixTimeFormatted [.column ⟨1, "at", none, .long⟩,
        .text "yyyy"]).lower {}).outcome = .done f ∧
      (∃ g, ((Expr.column ⟨1, "at", none, .long⟩).lower {}).outcome = .done g ∧ g.Within f) ∧
      ∃ g, ((Expr.text "yyyy").lower {}).outcome = .done g := by
  have done : ((Expr.call .fromUnixTimeFormatted [.column ⟨1, "at", none, .long⟩,
      .text "yyyy"]).lower {}).outcome =
        .done (func "DATE_FORMAT" [func "FROM_UNIXTIME" [.ident "at"], bindText "%Y"]) := by
    rw [lower_compositeCall _ rfl]
    simp only [Composite.expand, Lowering.outcome_bind, Lowering.outcome_ofOutcome,
      Outcome.done_bind]
    rw [lower_formatFunction _ rfl, lower_scalarFunction _ rfl]
    simp only [Lowering.each, lower_column]
    rfl
  obtain ⟨parts, -⟩ := lower_contains_parts done
  obtain ⟨g, result, inside, -⟩ := parts (.column ⟨1, "at", none, .long⟩)
    (.single List.mem_cons_self)
  obtain ⟨pattern, converted, -⟩ := parts (.text "yyyy")
    (.single (second_mem_children _ _ _))
  exact ⟨_, done, ⟨g, result, inside (.single List.mem_cons_self)⟩, pattern, converted⟩

end Expr

end SqlLowering
