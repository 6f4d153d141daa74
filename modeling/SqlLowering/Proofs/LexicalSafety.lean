import SqlLowering.Proofs.Alignment

/-!
# Nothing in a lowered text begins on its own

What a host writes around a lowered text is read as it was meant: outside of quoted names the text
closes every parenthesis it opens, ends no statement, begins no comment, and opens no string but the
one around a caret. The pieces of the text are safe one by one, and a comment could only begin where
two of them meet. They meet at a separator or at a parenthesis, so a sign before a negative number
never stands behind another sign.

Main statement: `Expr.lowerRoot_isSafe`. Quoted names are free to hold anything; `Glyph.outline`
leaves one backtick of each, so that the characters around a name do not become neighbours.
-/

namespace SqlLowering

open Dialect Fragment Text

/-- A character of a text, and a single backtick in the place of a quoted name. -/
def Glyph.outline : Glyph → Char
  | name _ => backtick
  | char c => c

namespace Fragment

/-- The text of a fragment with one backtick for each quoted name. -/
def outline (f : Fragment) : List Char :=
  f.glyphs.map Glyph.outline

/-- The texts of several fragments with a separator between them, and with one backtick for each
quoted name. -/
def outlineOfParts (separator : String) (parts : List Fragment) : List Char :=
  (glyphsOfParts separator parts).map Glyph.outline

/-- Characters outside of names are left as they are. -/
theorem map_outline_char (cs : List Char) : (cs.map Glyph.char).map Glyph.outline = cs := by
  rw [List.map_map]
  exact List.map_id cs

@[simp] theorem outline_raw (text : String) : (raw text).outline = text.toList :=
  map_outline_char text.toList

theorem outlineOfParts_singleton (separator : String) (part : Fragment) :
    outlineOfParts separator [part] = part.outline := by
  simp [outlineOfParts, outline, glyphsOfParts, glyphsAfter]

/-- A separator comes after each part but the last. -/
theorem outlineOfParts_cons_cons (separator : String) (part next : Fragment)
    (parts : List Fragment) :
    outlineOfParts separator (part :: next :: parts) =
      part.outline ++ (separator.toList ++ outlineOfParts separator (next :: parts)) := by
  simp only [outlineOfParts, outline, glyphsOfParts, glyphsAfter, List.map_append,
    map_outline_char, List.append_assoc]

/-- Without parentheses the parts are all that there is. -/
@[simp] theorem outline_join (parts : List Fragment) (separator : String) :
    (composite parts separator false).outline = outlineOfParts separator parts := by
  rw [outline, glyphs, outlineOfParts]

/-- Parentheses stand at both ends. -/
@[simp] theorem outline_parens (parts : List Fragment) (separator : String) :
    (composite parts separator true).outline =
      '(' :: outlineOfParts separator parts ++ [')'] := by
  rw [outline, glyphs, outlineOfParts, List.map_append]
  rfl

/-- Any text may end before a separator, and any text may begin after it. -/
theorem mayMeet_of_mem_separators {s : String} (listed : s ∈ separators) (cs ds : List Char) :
    MayMeet cs (s.toList ++ ds) ∧ MayMeet s.toList ds := by
  simp only [separators, List.mem_cons, List.not_mem_nil, or_false] at listed
  rcases listed with rfl | rfl | rfl | rfl | rfl
  all_goals exact ⟨.of_head? (by simp) _, .of_getLast? (by simp) _⟩

/-- Safe parts with a separator between them make a safe text. -/
theorem isSafe_outlineOfParts {separator : String} (listed : separator ∈ separators)
    {parts : List Fragment} (safe : ∀ part ∈ parts, IsSafe part.outline) :
    IsSafe (outlineOfParts separator parts) := by
  have between : IsSafe separator.toList := (isPhrase_of_mem_separators listed).safe
  induction parts with
  | nil =>
      have empty : IsWord [] := by decide
      exact empty.isSafe
  | cons part parts ih =>
      rw [List.forall_mem_cons] at safe
      have others := ih safe.2
      cases parts with
      | nil =>
          rw [outlineOfParts_singleton]
          exact safe.1
      | cons next parts =>
          rw [outlineOfParts_cons_cons]
          obtain ⟨before, after⟩ := mayMeet_of_mem_separators listed part.outline
            (outlineOfParts separator (next :: parts))
          exact safe.1.append (between.append others after) before

/-- What lowering writes is safe. -/
theorem Worded.isSafe {f : Fragment} (worded : f.Worded) : IsSafe f.outline := by
  induction worded with
  | raw phrase =>
      rw [outline_raw]
      exact phrase.safe
  | ident name =>
      have other : backtick ∉ [';', '#', '"', '\\', '\'', '(', ')'] := by decide
      exact .singleton other
  | bound param => exact .singleton (by decide)
  | joined listed _ parens ih =>
      have inner := isSafe_outlineOfParts listed ih
      cases parens with
      | false =>
          rw [outline_join]
          exact inner
      | true =>
          rw [outline_parens]
          exact inner.enclose
  | parenthesized _ ih =>
      rw [parenthesize, outline_parens, outlineOfParts_singleton]
      exact ih.enclose
  | applied phrase _ ih =>
      rw [outline_parens] at ih
      rw [join, outline_join, outlineOfParts_cons_cons, outlineOfParts_singleton, outline_raw,
        outline_parens]
      exact phrase.safe.append ih (.of_head? (by simp) _)
  | @enclosed name word opening text separator listed f g _ _ first second =>
      -- The two parentheses are pieces of their own; what stands between them is joined parts.
      have inner : IsSafe (outlineOfParts separator [f, g]) :=
        isSafe_outlineOfParts listed (by simp [first, second])
      have shape : (join [.raw opening, f, .raw separator, g, .raw ")"] "").outline =
          name ++ ('(' :: outlineOfParts separator [f, g] ++ [')']) := by
        simp [join, outlineOfParts_cons_cons, outlineOfParts_singleton, text]
      rw [shape]
      exact word.isSafe.call inner

end Fragment

/-- Outside of quoted names, a lowered text has balanced parentheses, ends no statement, begins no
comment, and has quotes only around a caret. -/
theorem Expr.lowerRoot_isSafe {ctx : Context} (names : ctx.WritesNames) {e : Expr} {f : Fragment}
    (h : (e.lowerRoot ctx).outcome = .done f) :
    ∃ gs, Text.glyphs f.render.sql.toList = some gs ∧ IsSafe (gs.map Glyph.outline) := by
  have worded := lowerRoot_worded names h
  exact ⟨f.glyphs, worded.spaced.glyphs_sql, worded.isSafe⟩

/-- A name that would end the statement if it were not quoted, a quoted caret, and a minus before a
negative number. -/
theorem Expr.lowerRoot_isSafe_of_hostile_name :
    ∃ f, ((Expr.pattern .regexFromStart (.column ⟨1, "'; -- /*", none, .string⟩)
        (.binary .sub (.text "(") (.literal (.long (-2)) .long))).lowerRoot {}).outcome = .done f ∧
      f.render.sql = "(\x60'; -- /*\x60 RLIKE CONCAT('^', (? - -2)))" ∧
      ∃ gs, Text.glyphs f.render.sql.toList = some gs ∧ IsSafe (gs.map Glyph.outline) := by
  have root : ((Expr.pattern .regexFromStart (.column ⟨1, "'; -- /*", none, .string⟩)
      (.binary .sub (.text "(") (.literal (.long (-2)) .long))).lowerRoot {}).outcome =
        .done (parenthesize (words [.ident "'; -- /*", .raw "RLIKE", func "CONCAT" [.raw "'^'",
          parenthesize (words [bindText "(", .raw "-", .raw "-2"])]])) := by
    rw [lowerRoot, lower_pattern, lower_column, lower_binary, Expr.text, Expr.ofValue,
      lower_literal, lower_literal]
    · rfl
    · intro child name h
      cases h
  exact ⟨_, root, rfl, lowerRoot_isSafe (.inl rfl) root⟩

end SqlLowering
