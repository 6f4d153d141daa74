import SqlLowering.Proofs.Wording

/-!
# Placeholders and parameters stay aligned

Every fragment that lowering writes is spaced: its fixed text is made of keywords, operators and
numbers, and nowhere do two quoted names meet. So a reader of the text finds exactly the names and
values that the fragment holds, in their order, and the parameters fit its placeholders one by one.
This needs no assumption on the names. They may be empty, and they may be made of backticks,
question marks and quotes.

Main statement: `Expr.lowerRoot_scan`. It is about columns under their own names or under mapped
ones; a resolver is otherwise free to write a column as any fragment.
-/

namespace SqlLowering

open Dialect Fragment Text

namespace Fragment

/-- What lowering writes is spaced: without a separator, parts meet only at a parenthesis or at
other fixed text. -/
theorem Worded.spaced {f : Fragment} (worded : f.Worded) : f.Spaced := by
  induction worded with
  | raw phrase => exact .raw phrase.fixed
  | ident name => exact .ident name
  | bound param => exact .bound param
  | joined listed _ parens ih =>
      refine .composite (isPhrase_of_mem_separators listed).fixed ih ?_
      rintro rfl
      exact absurd listed (by decide)
  | parenthesized _ ih => exact .composite (.ofList rfl) (by simp [ih]) fun _ => .singleton _
  | applied phrase _ ih =>
      refine .composite (.ofList rfl) (by simp [ih, Spaced.raw phrase.fixed]) fun _ => ?_
      exact List.isChain_pair.mpr (Bool.and_false _)
  | @enclosed name word opening text separator listed f g _ _ first second =>
      have opens : (Fragment.raw opening).Spaced := by
        refine .raw ?_
        rw [IsFixed, text, List.all_append, word.isFixed]
        rfl
      have between : (Fragment.raw separator).Spaced :=
        .raw (isPhrase_of_mem_separators listed).fixed
      have closes : (Fragment.raw ")").Spaced := .raw (.ofList rfl)
      have nonempty : opening ≠ "" ∧ separator ≠ "" := by
        constructor
        · rintro rfl
          simp at text
        · rintro rfl
          exact absurd listed (by decide)
      refine .composite (.ofList rfl) (by simp [opens, between, closes, first, second]) fun _ => ?_
      simp [Apart, mayQuote, nonempty]

end Fragment

namespace Expr

variable {ctx : Context}

/-- A reader of a lowered text finds the names and values of the fragment in their order, and the
parameters fit the placeholders one by one. -/
theorem lowerRoot_scan (names : ctx.WritesNames) {e : Expr} {f : Fragment}
    (h : (e.lowerRoot ctx).outcome = .done f) :
    Text.scan f.render.sql.toList = some (f.leaves.map Leaf.mark) ∧
      (f.leaves.map Leaf.mark).count .placeholder = f.render.params.length ∧
      Leaf.align (f.leaves.map Leaf.mark) f.render.params = some f.leaves := by
  have spaced := (lowerRoot_worded names h).spaced
  refine ⟨spaced.scan_sql, ?_, f.align_leaves⟩
  rw [Leaf.count_placeholder, ← params_eq_leaves]
  rfl

/-- A name of a question mark between backticks, an empty qualifier and an alias of two backticks,
around one placeholder. -/
theorem lowerRoot_scan_of_hostile_names :
    ∃ f, ((Expr.alias (.binary .eq (.column ⟨1, "\x60?\x60", some "", .string⟩) (.text "?"))
        "\x60\x60").lowerRoot {}).outcome = .done f ∧
      Text.scan f.render.sql.toList =
        some [.name "", .name "\x60?\x60", .placeholder, .name "\x60\x60"] ∧
      f.render.params = [⟨.string "?", .string⟩] := by
  have root : ((Expr.alias (.binary .eq (.column ⟨1, "\x60?\x60", some "", .string⟩) (.text "?"))
      "\x60\x60").lowerRoot {}).outcome = .done ((parenthesize (words
        [concat (.ident "") (.ident "\x60?\x60") ".", .raw "=", bindText "?"])).aliased
          "\x60\x60") := by
    rw [lowerRoot, lower_binary, lower_column, Expr.text, Expr.ofValue, lower_literal]
    rfl
  exact ⟨_, root, (lowerRoot_scan (.inl rfl) root).1, rfl⟩

end Expr

end SqlLowering
