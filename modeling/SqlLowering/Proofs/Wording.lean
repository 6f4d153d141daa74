import SqlLowering.Proofs.Assembly
import SqlLowering.Proofs.SafeText

/-!
# What lowered fragments are made of

Lowering writes every fragment in a few ways. It joins parts with a separator between them, it puts
a part in parentheses, it puts a word before parentheses, and in `CAST` and `DECIMAL` it writes the
two parentheses as pieces of their own. `Fragment.Worded` lists these ways; its fixed text is made
of phrases, which are checked here piece by piece.

Main statement: `Expr.lowerRoot_worded`. It is about columns under their own names or under mapped
ones; a resolver is otherwise free to write a column as any fragment. What follows for the text is
proved where it is used: that names and placeholders can be told apart, and that nothing in the
text begins a comment or a string.
-/

namespace SqlLowering

open Dialect Fragment Text

/-- Columns are written as quoted names: as their own, or as those of a mapping. -/
def Dialect.Context.WritesNames (ctx : Context) : Prop :=
  ctx.resolver = quotedColumns ∨ ∃ m : ColumnMap, ctx.resolver = m.resolver

namespace Fragment

/-- The texts that stand between parts. -/
def separators : List String :=
  [" ", ", ", ".", " AS ", ","]

/-- Separators are words as well. -/
theorem isPhrase_of_mem_separators {s : String} (listed : s ∈ separators) : IsPhrase s := by
  simp only [separators, List.mem_cons, List.not_mem_nil, or_false] at listed
  rcases listed with rfl | rfl | rfl | rfl | rfl <;> exact .word rfl

/-- The fragments that lowering writes. -/
inductive Worded : Fragment → Prop
  | raw {text : String} (phrase : IsPhrase text) : Worded (.raw text)
  | ident (name : String) : Worded (.ident name)
  | bound (param : Parameter) : Worded (.bound param)
  /-- parts with a separator between them, perhaps in parentheses -/
  | joined {parts : List Fragment} {separator : String} (listed : separator ∈ separators)
      (worded : ∀ part ∈ parts, Worded part) (parens : Bool) :
      Worded (.composite parts separator parens)
  | parenthesized {f : Fragment} (worded : Worded f) : Worded (parenthesize f)
  /-- a word before parts in parentheses -/
  | applied {text : String} (phrase : IsPhrase text) {parts : List Fragment} {separator : String}
      (args : Worded (.composite parts separator true)) :
      Worded (join [.raw text, .composite parts separator true] "")
  /-- a word with an opening parenthesis, two parts with a separator, and the closing one -/
  | enclosed (name : List Char) (word : IsWord name) {opening : String}
      (text : opening.toList = name ++ ['(']) {separator : String}
      (listed : separator ∈ separators) {f g : Fragment} (first : Worded f) (second : Worded g) :
      Worded (join [.raw opening, f, .raw separator, g, .raw ")"] "")

namespace Worded

variable {f g : Fragment} {fs : List Fragment}

/-- A word that is spelled out. -/
theorem word {cs : List Char} (checked : decide (IsWord cs) = true) :
    (Fragment.raw (.ofList cs)).Worded :=
  .raw (.word checked)

/-- An integer, perhaps with a sign. -/
theorem int (i : Int) : (Fragment.int i).Worded :=
  .raw (.of_isWord (isWord_intText i))

theorem nat (n : Nat) : (Fragment.nat n).Worded :=
  .raw (.of_isWord (isWord_natText n))

/-- A list with commas. -/
theorem list (worded : ∀ f ∈ fs, f.Worded) : (Fragment.join fs ", ").Worded :=
  joined (by simp [separators]) worded false

theorem words (worded : ∀ f ∈ fs, f.Worded) : (Fragment.words fs).Worded :=
  joined (by simp [separators]) worded false

theorem concat (hf : f.Worded) (hg : g.Worded) : (Fragment.concat f g " ").Worded :=
  words (by simp [hf, hg])

/-- A name before arguments in parentheses. -/
theorem func {name : String} (phrase : IsPhrase name) (worded : ∀ f ∈ fs, f.Worded) :
    (Fragment.func name fs).Worded :=
  applied phrase (joined (by simp [separators]) worded true)

end Worded

end Fragment

namespace Literal

/-- The name of a decimal type is written with its own parentheses. -/
theorem decimalType_worded (precision scale : UInt8) : (decimalType precision scale).Worded :=
  .enclosed "DECIMAL".toList (by decide) rfl (by simp [separators]) (.nat _) (.nat _)

/-- A cast to a type of the target. -/
theorem castAs_worded {operand target : Fragment} (ho : operand.Worded) (ht : target.Worded) :
    (Conversion.castAs operand target).Worded :=
  .enclosed "CAST".toList (by decide) rfl (by simp [separators]) ho ht

/-- A decimal is a number that is cast to its type. -/
theorem ofDecimal_worded (d : Number.Decimal) (declared : DataType) :
    (ofDecimal d declared).Worded := by
  have digits : (Fragment.decimal d).Worded := .raw (.of_isWord d.isWord_text)
  cases declared with
  | decimal precision scale => exact castAs_worded digits (decimalType_worded _ _)
  | _ => exact castAs_worded digits (decimalType_worded _ _)

/-- An interval is three words. -/
theorem intervalOf_worded (amount : Int) {unit : String} (phrase : IsPhrase unit) :
    (intervalOf amount unit).Worded := by
  have keyword : (Fragment.raw "INTERVAL").Worded := .word rfl
  exact .words (by simp [keyword, Worded.int, Worded.raw phrase])

/-- A literal is a placeholder, or words that consist of keywords and numbers only. -/
theorem encode_worded {value : Value} {declared : DataType} {f : Fragment}
    (h : encode value declared = some f) : f.Worded := by
  cases value with
  | null | string | binary | date | timestamp =>
      cases h
      exact .bound _
  | bool b =>
      cases b <;> cases h
      · exact .word rfl
      · exact .word rfl
  | byte n | short n | int n | long n =>
      cases h
      exact .int _
  | float x | double x =>
      obtain ⟨s, text, rfl⟩ := Option.map_eq_some_iff.mp h
      exact .raw (.of_isWord (Number.Reading.isWord_scientific? text))
  | decimal d =>
      cases h
      exact ofDecimal_worded d declared
  | interval months days micros =>
      rw [encode, ofInterval?] at h
      split at h
      · cases h
        exact intervalOf_worded _ (.word rfl)
      · split at h
        · cases h
          exact intervalOf_worded _ (.word rfl)
        · split at h
          · cases h
            exact intervalOf_worded _ (.word rfl)
          · cases h

/-- So all values of a set are. -/
theorem encodeAll_worded {values : List Value} {declared : DataType} {fs : List Fragment}
    (h : encodeAll values declared = some fs) : ∀ f ∈ fs, f.Worded := by
  intro f mem
  have written : some f ∈ values.map (encode · declared) := by
    rw [encodeAll_eq_some.mp h]
    exact List.mem_map_of_mem mem
  obtain ⟨value, -, same⟩ := List.mem_map.mp written
  exact encode_worded same

end Literal

namespace Rule

variable {condition first second : Fragment}

/-- A condition with its two results is a call. -/
theorem ifElse_worded (hc : condition.Worded) (hf : first.Worded) (hs : second.Worded) :
    (ifElse condition first second).Worded :=
  .func (.word rfl) (by simp [hc, hf, hs])

/-- An operator is a word, and its operand or the whole stands in parentheses. -/
theorem applyUnary_worded (op : UnaryOp) (hf : first.Worded) : (applyUnary op first).Worded := by
  cases op with
  | not => exact .concat (.word rfl) (.parenthesized hf)
  | negate => exact .applied (.word rfl) (.parenthesized hf)
  | bitNot => exact .applied (.word rfl) (.parenthesized hf)
  | isNull => exact .parenthesized (.concat hf (.word rfl))
  | isNotNull => exact .parenthesized (.concat hf (.word rfl))

/-- The members stand in parentheses of their own. -/
theorem memberTest_worded {members : List Fragment} (hf : first.Worded)
    (hm : ∀ m ∈ members, m.Worded) (negated : Bool) :
    (memberTest first members negated).Worded := by
  have word : (Fragment.raw (if negated then "NOT IN" else "IN")).Worded := by
    cases negated <;> exact .word rfl
  have list : (Fragment.parenthesize (.join members ", ")).Worded :=
    .parenthesized (.list hm)
  exact .parenthesized (.words (by simp [hf, word, list]))

/-- A case distinction is the words of its branches between its own two, whether it has a default or
not. -/
theorem caseWhen_worded {branches : List (List Fragment)} {otherwise : Option Fragment}
    (hb : ∀ words ∈ branches, ∀ f ∈ words, f.Worded) (ho : ∀ f ∈ otherwise, f.Worded) :
    (caseWhen branches otherwise).Worded := by
  have opening : (Fragment.raw "CASE").Worded := .word rfl
  have closing : (Fragment.raw "END").Worded := .word rfl
  have default : (Fragment.raw "ELSE").Worded := .word rfl
  have middle : ∀ f ∈ branches.flatten, f.Worded := by
    intro f mem
    obtain ⟨words, listed, mem⟩ := List.mem_flatten.mp mem
    exact hb words listed f mem
  have all (tail : List Fragment) (ht : ∀ f ∈ tail, f.Worded) :
      (Fragment.words ([.raw "CASE"] ++ branches.flatten ++ tail ++ [.raw "END"])).Worded := by
    apply Worded.words
    simp only [List.forall_mem_append, List.forall_mem_singleton]
    exact ⟨⟨⟨opening, middle⟩, ht⟩, closing⟩
  cases otherwise with
  | none => exact all [] (by simp)
  | some f => exact all [.raw "ELSE", f] (by simp [default, ho f rfl])

theorem branchWords_worded (hc : condition.Worded) (hf : first.Worded) :
    ∀ f ∈ branchWords condition first, f.Worded := by
  have when : (Fragment.raw "WHEN").Worded := .word rfl
  have result : (Fragment.raw "THEN").Worded := .word rfl
  simp [branchWords, when, result, hc, hf]

/-- An escape character is a parameter, and the caret is the only string that is written out. -/
theorem matchWords_worded (kind : MatchKind) (hf : first.Worded) (hs : second.Worded) :
    ∀ f ∈ matchWords kind first second, f.Worded := by
  have like : (Fragment.raw "LIKE").Worded := .word rfl
  have regex : (Fragment.raw "RLIKE").Worded := .word rfl
  have escape : (Fragment.raw "ESCAPE").Worded := .word rfl
  have caret : (Fragment.raw "'^'").Worded := .raw .caret
  cases kind with
  | like c =>
      rw [matchWords, List.forall_mem_append]
      constructor
      · simp [hf, hs, like]
      · split
        · simp
        · simp [escape, bindText, Fragment.bind, Worded.bound]
  | regex => simp [matchWords, hf, hs, regex]
  | regexFromStart =>
      have anchored : (Fragment.func "CONCAT" [.raw "'^'", second]).Worded :=
        .func (.word rfl) (by simp [caret, hs])
      simp [matchWords, hf, regex, anchored]

/-- A test of one text against another. -/
theorem textTest?_worded {f : ScalarFunction} {test : Fragment → Fragment → List Fragment}
    (h : textTest? f = some test) (hf : first.Worded) (hs : second.Worded) :
    ∀ g ∈ test first second, g.Worded := by
  have equals : (Fragment.raw "=").Worded := .word rfl
  have exceeds : (Fragment.raw ">").Worded := .word rfl
  have length : (Fragment.func "CHAR_LENGTH" [second]).Worded := .func (.word rfl) (by simp [hs])
  cases f with
  | contains =>
      cases h
      have position : (Fragment.func "LOCATE" [second, first]).Worded :=
        .func (.word rfl) (by simp [hf, hs])
      simp [position, exceeds, Worded.int]
  | startsWith =>
      cases h
      have beginning : (Fragment.func "LEFT" [first, .func "CHAR_LENGTH" [second]]).Worded :=
        .func (.word rfl) (by simp [hf, length])
      simp [beginning, equals, hs]
  | endsWith =>
      cases h
      have ending : (Fragment.func "RIGHT" [first, .func "CHAR_LENGTH" [second]]).Worded :=
        .func (.word rfl) (by simp [hf, length])
      simp [ending, equals, hs]
  | _ => cases h

end Rule

namespace Conversion

open Literal

/-- Every form of a conversion is made of words and the operand. -/
theorem convert?_worded {operand f : Fragment} {source target : DataType} (ho : operand.Worded)
    (h : convert? operand source target = some f) : f.Worded := by
  cases form_of_convert? h with
  | spelled => exact Rule.ifElse_worded ho (.bound _) (.bound _)
  | cut =>
      have truncated : (truncated operand).Worded :=
        .func (.word rfl) (by simp [ho, Worded.int])
      exact castAs_worded truncated (.word rfl)
  | @cast type mem =>
      have timed : IsPhrase "DATETIME(6)" := .call "DATETIME".toList ['6'] (by decide) (by decide)
      have phrase : IsPhrase type := by
        simp only [List.mem_cons, List.not_mem_nil, or_false] at mem
        rcases mem with rfl | rfl | rfl | rfl | rfl
        all_goals first | exact timed | exact .word rfl
      exact castAs_worded ho (.raw phrase)
  | decimal precision scale => exact castAs_worded ho (decimalType_worded precision scale)
  | compared =>
      have differs : (Fragment.raw "!=").Worded := .word rfl
      exact .parenthesized (.words (by simp [ho, differs, Worded.int]))

end Conversion

namespace AggregateCall

/-- A filter makes a condition of the argument. -/
theorem restrict_worded {filter : Option Fragment} {arg : Fragment} (hf : ∀ f ∈ filter, f.Worded)
    (ha : arg.Worded) : (restrict filter arg).Worded := by
  cases filter with
  | none => exact ha
  | some condition => exact Rule.ifElse_worded (hf condition rfl) ha (.word rfl)

/-- Rows are counted by a star, or by a one where the filter holds. -/
theorem rowArguments_worded {filter : Option Fragment} (hf : ∀ f ∈ filter, f.Worded) :
    ∀ f ∈ rowArguments filter, f.Worded := by
  cases filter with
  | none =>
      rw [rowArguments, List.forall_mem_singleton]
      exact .word rfl
  | some condition =>
      rw [rowArguments, List.forall_mem_singleton]
      exact restrict_worded hf (.int 1)

/-- Distinct values have a word before them inside of the parentheses. -/
theorem write_worded (func : AggregateFunction) (distinct : Bool) {args : List Fragment}
    (ha : ∀ f ∈ args, f.Worded) : (write func distinct args).Worded := by
  have name : IsPhrase func.sqlName := by cases func <;> exact .word rfl
  rw [write]
  split
  · exact .applied name (.parenthesized (.concat (.word rfl) (.list ha)))
  · exact .func name ha

/-- An aggregate is its name before its arguments, each of them behind the filter. -/
theorem assemble_worded {ctx : Context} {visit : Expr → Fragment} {agg : AggregateCall Expr}
    {f : Fragment} (operands : ∀ c ∈ agg.children, (visit c).Worded)
    (h : agg.assemble ctx visit = some f) : f.Worded := by
  have filter : ∀ g ∈ agg.filter.map visit, g.Worded := by
    intro g mem
    obtain ⟨c, given, rfl⟩ := Option.map_eq_some_iff.mp mem
    exact operands c (mem_children_of_filter given)
  simp only [assemble] at h
  split at h
  · split at h
    · cases h
      exact write_worded _ _ (rowArguments_worded filter)
    · cases h
      apply write_worded
      simp only [List.forall_mem_map]
      intro c mem
      exact restrict_worded filter (operands c (mem_children_of_mem_args mem))
  · cases h

end AggregateCall

/-- A distance is written without its sign, which is said by a word. -/
theorem FrameBoundary.fragment_worded (boundary : FrameBoundary) : boundary.fragment.Worded := by
  cases boundary with
  | unboundedPreceding | unboundedFollowing | currentRow => exact .word rfl
  | offset n =>
      have word : (Fragment.raw (if n < 0 then "PRECEDING" else "FOLLOWING")).Worded := by
        split <;> exact .word rfl
      exact .concat (.nat _) word

/-- A frame is the words of its two ends and those around them. -/
theorem WindowFrame.fragment_worded (frame : WindowFrame) : frame.fragment.Worded := by
  have between : (Fragment.raw "BETWEEN").Worded := .word rfl
  have conj : (Fragment.raw "AND").Worded := .word rfl
  have rows : (Fragment.raw "ROWS").Worded := .word rfl
  have range : (Fragment.raw "RANGE").Worded := .word rfl
  apply Worded.words
  cases frame.kind <;> simp [between, conj, rows, range, FrameBoundary.fragment_worded]

/-- A window function is a call, also where an offset or a position is written into it. -/
theorem WindowFunction.assemble_worded {ctx : Context} {visit : Expr → Fragment}
    {function : WindowFunction Expr} {f : Fragment}
    (operands : ∀ c ∈ function.children, (visit c).Worded)
    (h : function.assemble ctx visit = some f) : f.Worded := by
  have shift {name : String} (phrase : IsPhrase name) {input : Expr} {offset : Int64}
      {default : Option Expr} (operands : ∀ c ∈ input :: default.toList, (visit c).Worded)
      (h : assembleShift visit name input offset default = some f) : f.Worded := by
    rw [assembleShift] at h
    split at h
    · cases h
      refine .func phrase ?_
      cases default with
      | none => simpa [Worded.int] using operands
      | some c => simpa [Worded.int] using operands
    · cases h
  cases function with
  | aggregate agg =>
      rw [assemble] at h
      split at h
      · exact AggregateCall.assemble_worded operands h
      · cases h
  | rowNumber | rank | denseRank | percentRank | cumeDist =>
      cases h
      exact .func (.word rfl) (by simp)
  | ntile input | firstValue input | lastValue input =>
      cases h
      exact .func (.word rfl) (by simpa [children] using operands)
  | lag input offset default => exact shift (.word rfl) operands h
  | lead input offset default => exact shift (.word rfl) operands h
  | nthValue input n =>
      rw [assemble] at h
      split at h
      · cases h
        exact .func (.word rfl) (by simpa [children, Worded.int] using operands)
      · cases h

namespace WindowCall

/-- A clause is left out if it has no keys. -/
theorem keyClause_worded {announce : String} (phrase : IsPhrase announce) {keys : List Fragment}
    (hk : ∀ f ∈ keys, f.Worded) : ∀ f ∈ keyClause announce keys, f.Worded := by
  rw [keyClause]
  split
  · simp
  · rw [List.forall_mem_singleton]
    exact .concat (.raw phrase) (.list hk)

/-- A window is its function and the clauses after it in parentheses. -/
theorem assemble_worded {ctx : Context} {visit : Expr → Fragment} {win : WindowCall Expr}
    {f : Fragment} (operands : ∀ c ∈ win.children, (visit c).Worded)
    (h : win.assemble ctx visit = some f) : f.Worded := by
  have partition : ∀ g ∈ win.partitionBy.map visit, g.Worded := by
    rw [List.forall_mem_map]
    intro c mem
    exact operands c (mem_children_of_mem_partitionBy mem)
  have order : ∀ g ∈ win.orderBy.map (fun key => Fragment.concat (visit key.expr)
      (.raw (directionWord key.direction)) " "), g.Worded := by
    rw [List.forall_mem_map]
    intro key mem
    have word : IsPhrase (directionWord key.direction) := by
      cases key.direction <;> exact .word rfl
    exact .concat (operands _ (mem_children_of_mem_orderBy mem)) (.raw word)
  have frame : ∀ g ∈ win.frame.toList.map WindowFrame.fragment, g.Worded := by
    rw [List.forall_mem_map]
    intro frame _
    exact frame.fragment_worded
  obtain ⟨function, called, h⟩ := Option.bind_eq_some_iff.mp h
  have called := WindowFunction.assemble_worded
    (fun c mem => operands c (mem_children_of_mem_func mem)) called
  split at h
  · cases h
    have clause : (win.assembleOver visit).Worded := by
      apply Worded.parenthesized
      apply Worded.words
      simp only [List.forall_mem_append]
      exact ⟨⟨keyClause_worded (.word rfl) partition, keyClause_worded (.word rfl) order⟩,
        frame⟩
    have word : (Fragment.raw "OVER").Worded := .word rfl
    exact .words (by simp [called, word, clause])
  · cases h

end WindowCall

namespace Expr

variable {ctx : Context} {visit : Expr → Fragment}

/-- Functions without arguments are written with empty parentheses or with a number in them. -/
theorem leafCall?_worded {f : ScalarFunction} {g : Fragment}
    (h : Rule.leafCall? ctx f = some g) : g.Worded := by
  cases f with
  | currentDate | pi | rand =>
      cases h
      exact .func (.word rfl) (by simp)
  | currentTimestamp =>
      cases h
      exact .raw (.call "NOW".toList ['6'] (by decide) (by decide))
  | uuid =>
      rw [Rule.leafCall?] at h
      split at h
      · cases h
        exact .func (.word rfl) (by simp)
      · cases h
  | _ => cases h

/-- Each form of a plain call is made of its words and its operands. -/
theorem assembleCall_worded {f : ScalarFunction} {args : List Expr} {g : Fragment}
    (plain : Rule.Kind.ofFunction f ≠ .compositeCall) (operands : ∀ c ∈ args, (visit c).Worded)
    (h : assembleCall ctx visit f args = some g) : g.Worded := by
  cases callForm_of_assembleCall ctx plain h with
  | @named name _ known =>
      have phrase : IsPhrase name := by
        rcases known with known | known <;> cases f <;> cases known <;> exact .word rfl
      refine .func phrase ?_
      rw [List.forall_mem_map]
      exact operands
  | leaf known => exact leafCall?_worded known
  | @dateArithmetic name unit date amount known =>
      have phrase : IsPhrase name ∧ IsPhrase unit := by
        cases f <;> cases known <;> exact ⟨.word rfl, .word rfl⟩
      have keyword : (Fragment.raw "INTERVAL").Worded := .word rfl
      simp only [List.forall_mem_cons] at operands
      obtain ⟨start, distance, -⟩ := operands
      have interval : (Fragment.words [.raw "INTERVAL", visit amount, .raw unit]).Worded :=
        .words (by simp [keyword, distance, Worded.raw phrase.2])
      exact .func phrase.1 (by simp [start, interval])
  | @format name _ _ input _ known _ =>
      have phrase : IsPhrase name := by cases f <;> cases known <;> exact .word rfl
      have input := operands input List.mem_cons_self
      exact .func phrase (by simp [input, bindText, Fragment.bind, Worded.bound])
  | textPredicate text part known =>
      simp only [List.forall_mem_cons] at operands
      obtain ⟨whole, sought, -⟩ := operands
      exact .parenthesized (.words (Rule.textTest?_worded known whole sought))

/-- A node is made of words and parts if its operands are and columns are. -/
theorem assemble_worded {e : Expr} {f : Fragment}
    (names : ∀ ref f, ctx.resolver ref = some f → f.Worded)
    (plain : e.kind ≠ .compositeCall) (operands : ∀ c ∈ e.children, (visit c).Worded)
    (h : e.assemble ctx visit = some f) : f.Worded := by
  match e with
  | .literal value type => exact Literal.encode_worded h
  | .column ref => exact names ref f h
  | .alias child name =>
      cases h
      exact operands child List.mem_cons_self
  | .unary op child =>
      cases h
      exact Rule.applyUnary_worded op (operands child List.mem_cons_self)
  | .binary op left right =>
      cases h
      have token : (Fragment.raw op.token).Worded := by cases op <;> exact .word rfl
      have before := operands left (left_mem_children op left right)
      have after := operands right (right_mem_children op left right)
      exact .parenthesized (.words (by simp [before, token, after]))
  | .call g args => exact assembleCall_worded plain operands h
  | .conditional predicate consequent otherwise =>
      cases h
      simp only [children, List.forall_mem_cons] at operands
      obtain ⟨condition, yes, no, -⟩ := operands
      exact Rule.ifElse_worded condition yes no
  | .case branches otherwise =>
      rw [assemble] at h
      split at h
      · cases h
        apply Rule.caseWhen_worded
        · rw [List.forall_mem_map]
          intro branch mem
          exact Rule.branchWords_worded (operands _ (condition_mem_children mem))
            (operands _ (result_mem_children mem))
        · intro g mem
          obtain ⟨c, given, rfl⟩ := Option.map_eq_some_iff.mp mem
          exact operands c (mem_children_of_case_otherwise given)
      · cases h
  | .pattern kind child regex =>
      cases h
      have text := operands child (text_mem_children kind child regex)
      have letters := operands regex (regex_mem_children kind child regex)
      exact .parenthesized (.words (Rule.matchWords_worded kind text letters))
  | .inList child items negated =>
      rw [assemble] at h
      split at h
      · cases h
        apply Rule.memberTest_worded (operands child (mem_children_inList child items negated))
        rw [List.forall_mem_map]
        intro item mem
        exact operands item (mem_children_of_mem_inList mem)
      · cases h
  | .inSet child values type negated =>
      obtain ⟨members, written, h⟩ := Option.bind_eq_some_iff.mp h
      split at h
      · cases h
        exact Rule.memberTest_worded (operands child List.mem_cons_self)
          (Literal.encodeAll_worded written) negated
      · cases h
  | .cast child target =>
      have operand := operands child (mem_children_cast child target)
      rw [assemble] at h
      split at h
      · cases h
        exact operand
      · exact Conversion.convert?_worded operand h
  | .aggregate agg => exact AggregateCall.assemble_worded operands h
  | .window win => exact WindowCall.assemble_worded operands h

/-- Columns under their own names or under mapped ones are made of quoted names. -/
theorem resolver_worded (names : ctx.WritesNames) {ref : ColumnRef} {f : Fragment}
    (h : ctx.resolver ref = some f) : f.Worded := by
  rcases names with own | ⟨m, mapped⟩
  · rw [own, quotedColumns] at h
    split at h
    · cases h
      exact .joined (by simp [separators]) (by simp [Worded.ident]) false
    · cases h
      exact .ident _
  · rw [mapped] at h
    obtain ⟨name, -, rfl⟩ := Option.map_eq_some_iff.mp h
    exact .ident name

/-- Each fragment is assembled from those of its operands, so the ways to write them carry over to
the whole. -/
theorem lower_worded (names : ctx.WritesNames) {e : Expr} {f : Fragment}
    (h : (e.lower ctx).outcome = .done f) : f.Worded := by
  refine fragment_induction ?_ h
  intro e plain visit operands f written
  exact assemble_worded (fun _ _ => resolver_worded names) plain operands written

/-- At the root an alias may be added, which is a quoted name. -/
theorem lowerRoot_worded (names : ctx.WritesNames) {e : Expr} {f : Fragment}
    (h : (e.lowerRoot ctx).outcome = .done f) : f.Worded := by
  obtain ⟨g, lowered, rfl | ⟨name, rfl⟩⟩ := exists_lower_of_lowerRoot h
  · exact lower_worded names lowered
  · have word : (Fragment.raw "AS").Worded := .word rfl
    exact .words (by simp [lower_worded names lowered, word, Worded.ident])

end Expr

end SqlLowering
