import SqlLowering.Proofs.Assembly

/-!
# Filters on aggregates

The target has no filter on an aggregate. A filtered call is written with an argument that is null
on the rows where the filter does not hold, and here this is given a meaning: the call has the value
of the aggregate over the rows on which the filter is true. A filter that is null on a row leaves
the row out, as one that is false does, and a count of rows counts those that are left.

`Target` is what is assumed of the target. An `IF` takes its second value unless its condition is
true, `NULL` is null and other fixed words are not, and an aggregate is a function of the inputs
that are not null, in the order of the rows. All other texts have whatever values they are given.

Main statement: `AggregateCall.result_of_filter`.
-/

namespace SqlLowering

open Dialect Fragment

/-- A reading of the target's text on rows `ρ`, with values `ν` beside null. -/
structure Target (ρ ν : Type) where
  /-- the value of a fixed word or number -/
  word : String → ρ → ν
  /-- the value of any other text, which may be null -/
  other : Fragment → ρ → Option ν
  /-- the value counts as true -/
  isTrue : ν → Bool
  /-- a number of rows or inputs as a value -/
  count : Nat → ν
  /-- the value of an aggregate over its inputs, given by its name -/
  aggregate : String → List ν → Option ν

namespace Target

variable {ρ ν : Type}

/-- The value of a text on a row; none is null. -/
def value (t : Target ρ ν) (row : ρ) : Fragment → Option ν
  | .raw text => if text = "NULL" then none else some (t.word text row)
  | .composite [.raw "IF", .composite [condition, consequent, otherwise] ", " true] "" false =>
    if (t.value row condition).any t.isTrue then t.value row consequent
    else t.value row otherwise
  | f => t.other f row

/-- A condition is true on a row; it is not if it is null. -/
def holds (t : Target ρ ν) (condition : Fragment) (row : ρ) : Bool :=
  (t.value row condition).any t.isTrue

/-- The inputs of an aggregate with an argument: its values that are not null. -/
def inputs (t : Target ρ ν) (arg : Fragment) (rows : List ρ) : List ν :=
  rows.filterMap fun row => t.value row arg

/-- An aggregate over inputs; a count is their number. -/
def apply (t : Target ρ ν) (name : String) (values : List ν) : Option ν :=
  if name = "COUNT" then some (t.count values.length) else t.aggregate name values

/-- The value of an aggregate call over rows. -/
def result (t : Target ρ ν) (rows : List ρ) : Fragment → Option ν
  | .composite [.raw "COUNT", .composite [.raw "*"] ", " true] "" false =>
    some (t.count rows.length)
  | .composite [.raw name, .composite [arg] ", " true] "" false => t.apply name (t.inputs arg rows)
  | _ => none

variable (t : Target ρ ν)

/-- A choice takes its second value where the condition is false or null. -/
theorem value_ifElse (row : ρ) (condition consequent otherwise : Fragment) :
    t.value row (Rule.ifElse condition consequent otherwise) =
      if t.holds condition row then t.value row consequent else t.value row otherwise :=
  rfl

/-- An argument that is null where a condition does not hold has the inputs of the rows on which it
holds. -/
theorem inputs_ifElse_null (condition arg : Fragment) (rows : List ρ) :
    t.inputs (Rule.ifElse condition arg (.raw "NULL")) rows =
      t.inputs arg (rows.filter (t.holds condition)) := by
  rw [inputs, inputs, List.filterMap_filter]
  rfl

/-- A call with such an argument is the aggregate over the rows on which the condition holds. -/
theorem result_func_ifElse_null (rows : List ρ) (name : String) (condition arg : Fragment) :
    t.result rows (func name [Rule.ifElse condition arg (.raw "NULL")]) =
      t.apply name (t.inputs arg (rows.filter (t.holds condition))) := by
  rw [← inputs_ifElse_null, func, join, result]
  intro _ star
  cases star

/-- The number one is an input on every row. -/
theorem length_inputs_one (rows : List ρ) : (t.inputs (.int 1) rows).length = rows.length := by
  have ones : t.inputs (.int 1) rows = rows.map (t.word "1") :=
    congrFun List.filterMap_eq_map rows
  rw [ones, List.length_map]

end Target

namespace AggregateCall

variable {ρ ν : Type} {ctx : Context}

/-- A filtered call is written with one argument, which is null where the filter does not hold. -/
theorem assemble_of_filter {visit : Expr → Fragment} {call : AggregateCall Expr} {condition : Expr}
    {f : Fragment} (plain : call.distinct = false) (filter : call.filter = some condition)
    (h : call.assemble ctx visit = some f) :
    (call.args = [] ∧ call.func = .count ∧
      f = Fragment.func "COUNT" [Rule.ifElse (visit condition) (.int 1) (.raw "NULL")]) ∨
    ∃ arg, call.args = [arg] ∧
      f = Fragment.func call.func.sqlName
        [Rule.ifElse (visit condition) (visit arg) (.raw "NULL")] := by
  simp only [assemble, filter, Option.map_some] at h
  split at h
  · rename_i fits
    rw [Bool.and_eq_true, isWellFormed, plain] at fits
    rcases args : call.args with _ | ⟨arg, _ | ⟨next, rest⟩⟩
    · left
      rw [args] at fits h
      have count : call.func = .count := by simpa using fits.2
      rw [count, plain] at h
      cases h
      exact ⟨rfl, count, rfl⟩
    · right
      rw [args, plain] at h
      cases h
      exact ⟨arg, rfl, rfl⟩
    · rw [args] at fits
      simp at fits
  · cases h

/-- Over a window, the call is written as it is without one. -/
theorem exists_over_of_aggregate {visit : Expr → Fragment} {call : AggregateCall Expr}
    {win : WindowCall Expr} {f g : Fragment} (called : win.func = .aggregate call)
    (hf : call.assemble ctx visit = some f) (hg : win.assemble ctx visit = some g) :
    ∃ clause, g = words [f, .raw "OVER", clause] := by
  obtain ⟨function, written, hg⟩ := Option.bind_eq_some_iff.mp hg
  rw [called, WindowFunction.assemble] at written
  split at written
  · rw [hf] at written
    cases written
    split at hg
    · cases hg
      exact ⟨_, rfl⟩
    · cases hg
  · cases written

/-- A filtered call has the value of its aggregate over the rows on which the filter is true, and a
filtered count of rows is their number. The same text stands before the window of a window call. -/
theorem result_of_filter (t : Target ρ ν) {call : AggregateCall Expr} {condition : Expr}
    {f : Fragment} (plain : call.distinct = false) (filter : call.filter = some condition)
    (done : ((Expr.aggregate call).lower ctx).outcome = .done f) (rows : List ρ) :
    ∃ c, (condition.lower ctx).outcome = .done c ∧
      ((call.args = [] ∧ call.func = .count ∧
          f = Fragment.func "COUNT" [Rule.ifElse c (.int 1) (.raw "NULL")] ∧
          t.result rows f = some (t.count (rows.filter (t.holds c)).length)) ∨
        ∃ arg x, call.args = [arg] ∧ (arg.lower ctx).outcome = .done x ∧
          f = Fragment.func call.func.sqlName [Rule.ifElse c x (.raw "NULL")] ∧
          t.result rows f = t.apply call.func.sqlName (t.inputs x (rows.filter (t.holds c)))) ∧
      ∀ win g, win.func = .aggregate call → ((Expr.window win).lower ctx).outcome = .done g →
        ∃ clause, g = words [f, .raw "OVER", clause] := by
  obtain ⟨lowered, assembled⟩ := (Expr.lower_eq_done_iff (by intro h; cases h)).mp done
  have kept := (lowered condition (mem_children_of_filter filter)).outcome_eq
  refine ⟨condition.fragment ctx, kept, ?_, ?_⟩
  · rcases assemble_of_filter plain filter assembled with ⟨none, count, rfl⟩ | ⟨arg, one, rfl⟩
    · refine .inl ⟨none, count, rfl, ?_⟩
      rw [Target.result_func_ifElse_null, Target.apply, if_pos rfl, Target.length_inputs_one]
    · have mem : arg ∈ call.args := one ▸ List.mem_cons_self
      refine .inr ⟨arg, arg.fragment ctx, one, ?_, rfl, ?_⟩
      · exact (lowered arg (mem_children_of_mem_args mem)).outcome_eq
      · exact t.result_func_ifElse_null rows _ _ _
  · intro win g called windowed
    obtain ⟨-, written⟩ := (Expr.lower_eq_done_iff (by intro h; cases h)).mp windowed
    exact exists_over_of_aggregate called assembled written

end AggregateCall

/-- Rows of an amount and a flag, either of which may be null; a sum of numbers. -/
def Target.flagged : Target (Option Int × Option Int) Int where
  word _ _ := 1
  other
    | .ident "amount", row => row.1
    | .ident _, row => row.2
    | _, _ => none
  isTrue n := n != 0
  count n := .ofNat n
  aggregate _ values := some (values.foldl (· + ·) 0)

/-- Of four rows, only the first is counted in: the flag of the second is null, the amount of the
third is, and the flag of the fourth is false. -/
theorem AggregateCall.result_of_filter_of_flagged_sum :
    ∃ f, ((Expr.aggregate ⟨.sum, [.column ⟨1, "amount", none, .long⟩], false,
        some (.column ⟨2, "flag", none, .boolean⟩)⟩).lower {}).outcome = .done f ∧
      Target.flagged.result [(some 5, some 1), (some 7, none), (none, some 1), (some 9, some 0)] f =
        some 5 := by
  have done : ((Expr.aggregate ⟨.sum, [.column ⟨1, "amount", none, .long⟩], false,
      some (.column ⟨2, "flag", none, .boolean⟩)⟩).lower {}).outcome =
        .done (Fragment.func "SUM"
          [Rule.ifElse (.ident "flag") (.ident "amount") (.raw "NULL")]) := by
    rw [Expr.lower_aggregate]
    simp only [AggregateCall.lower, Lowering.each, Lowering.optional, Expr.lower_column]
    rfl
  refine ⟨_, done, ?_⟩
  obtain ⟨c, kept, ⟨args, -⟩ | ⟨arg, x, args, value, -, result⟩, -⟩ :=
    AggregateCall.result_of_filter Target.flagged rfl rfl done
      [(some 5, some 1), (some 7, none), (none, some 1), (some 9, some 0)]
  · cases args
  · cases args
    rw [Expr.lower_column] at kept value
    cases kept
    cases value
    rw [result]
    decide

end SqlLowering
