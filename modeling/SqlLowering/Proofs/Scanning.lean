import Mathlib.Data.List.Chain
import SqlLowering.Fragment

/-!
# Finding names and placeholders in a text

The target finds the placeholders of a text by reading it from left to right. A backtick opens a
quoted name, in which a doubled backtick stands for one and any other closes; outside of names every
question mark is a placeholder. `Text.scan` is that reader, and it knows nothing of fragments.
`Text.glyphs` reads the same names and keeps the characters between them.

The text of a fragment is read back correctly when fixed text keeps to an alphabet without backticks
and question marks, and when no quoted name stands directly after another one: two names without a
separator would be read as one. `Fragment.Spaced` states both conditions, part by part.

Main statements: `Fragment.Spaced.glyphs_sql`, which says that a spaced fragment is read as the
names and characters it is written with, `Fragment.Spaced.scan_sql`, which says that a reader finds
its leaves in their order, and `Fragment.align_leaves`, which says that the parameters belong to the
placeholders in theirs. Which fragments are spaced is not decided here.
-/

namespace SqlLowering

/-- What a reader finds in a text besides fixed words. -/
inductive Mark where
  /-- a quoted name, with its backticks no longer doubled -/
  | name (s : String)
  /-- a place for a value -/
  | placeholder
deriving DecidableEq

/-- A quoted name of a text, or a character outside of names. -/
inductive Glyph where
  | name (s : String)
  | char (c : Char)
deriving DecidableEq

/-- The mark of a glyph: a name, or a question mark. -/
def Glyph.mark? : Glyph → Option Mark
  | name s => some (.name s)
  | char c => if c = '?' then some .placeholder else none

namespace Text

/-- Read a quoted name after its first backtick: the name, and what follows the closing backtick.
A doubled backtick stands for one, and any other closes. -/
def readName : List Char → Option (List Char × List Char)
  | [] => none
  | [c] => if c = backtick then some ([], []) else none
  | c :: d :: rest =>
    if c = backtick then
      if d = backtick then (readName rest).map fun (name, after) => (backtick :: name, after)
      else some ([], d :: rest)
    else (readName (d :: rest)).map fun (name, after) => (c :: name, after)

/-- A name takes up at least its closing backtick, so a scan gets ahead with it. -/
theorem length_lt_of_readName {cs name after : List Char} (h : readName cs = some (name, after)) :
    after.length < cs.length := by
  fun_induction readName cs generalizing name with
  | case1 => cases h
  | case2 => cases h; simp
  | case3 => cases h
  | case4 rest ih =>
      obtain ⟨⟨inner, after'⟩, read, same⟩ := Option.map_eq_some_iff.mp h
      cases same
      have shorter := ih read
      simp only [List.length_cons]
      omega
  | case5 => cases h; simp
  | case6 c d rest _ ih =>
      obtain ⟨⟨inner, after'⟩, read, same⟩ := Option.map_eq_some_iff.mp h
      cases same
      exact Nat.lt_succ_of_lt (ih read)

/-- The names and placeholders of a text in their order; there is no answer for a text that ends
inside a quoted name. -/
def scan (cs : List Char) : Option (List Mark) :=
  match cs with
  | [] => some []
  | c :: rest =>
    if c = backtick then
      match h : readName rest with
      | some (name, after) =>
        have := length_lt_of_readName h
        (scan after).map (.name (String.ofList name) :: ·)
      | none => none
    else if c = '?' then (scan rest).map (.placeholder :: ·)
    else scan rest
termination_by cs.length

/-- The names of a text and the characters between them, in their order; there is no answer for a
text that ends inside a quoted name. -/
def glyphs (cs : List Char) : Option (List Glyph) :=
  match cs with
  | [] => some []
  | c :: rest =>
    if c = backtick then
      match h : readName rest with
      | some (name, after) =>
        have := length_lt_of_readName h
        (glyphs after).map (.name (String.ofList name) :: ·)
      | none => none
    else (glyphs rest).map (.char c :: ·)
termination_by cs.length

/-- The marks of a text are those of its glyphs. -/
theorem scan_eq_glyphs (cs : List Char) :
    scan cs = (glyphs cs).map (List.filterMap Glyph.mark?) := by
  fun_induction glyphs cs with
  | case1 => simp [scan]
  | case2 rest name after read _ ih =>
      rw [scan, if_pos rfl]
      split
      · rename_i h
        rw [read] at h
        cases h
        rw [ih, Option.map_map, Option.map_map]
        rfl
      · rename_i h
        rw [read] at h
        cases h
  | case3 rest read =>
      rw [scan, if_pos rfl]
      split
      · rename_i h
        rw [read] at h
        cases h
      · rfl
  | case4 c rest other ih =>
      rw [scan, if_neg other, ih]
      by_cases value : c = '?'
      · rw [if_pos value]
        cases glyphs rest <;> simp [Glyph.mark?, value]
      · rw [if_neg value]
        cases glyphs rest <;> simp [Glyph.mark?, value]

/-- Quoting is undone by reading, whatever the name is made of, if no backtick follows. -/
theorem readName_doubleBackticks (name : List Char) {rest : List Char}
    (clear : rest.head? ≠ some backtick) :
    readName (doubleBackticks name ++ backtick :: rest) = some (name, rest) := by
  induction name with
  | nil =>
      cases rest with
      | nil => simp [doubleBackticks, readName]
      | cons d rest =>
          have other : d ≠ backtick := fun same => clear (congrArg some same)
          simp [doubleBackticks, readName, other]
  | cons c name ih =>
      by_cases same : c = backtick
      · simp [doubleBackticks, readName, same, ih]
      · obtain ⟨d, tail, shape⟩ :
            ∃ d tail, doubleBackticks name ++ backtick :: rest = d :: tail :=
          List.exists_cons_of_ne_nil (by simp)
        rw [doubleBackticks, if_neg same, List.cons_append, shape, readName, if_neg same, ← shape,
          ih]
        rfl

/-- A quoted name is read as itself. -/
theorem glyphs_quoteIdentifier (name : String) {rest : List Char}
    (clear : rest.head? ≠ some backtick) :
    glyphs ((quoteIdentifier name).toList ++ rest) = (glyphs rest).map (.name name :: ·) := by
  have read := readName_doubleBackticks name.toList clear
  simp only [quoteIdentifier, String.toList_ofList, List.cons_append, List.append_assoc,
    List.nil_append]
  rw [glyphs, if_pos rfl]
  split
  · rename_i name' after h
    rw [read] at h
    cases h
    rw [String.ofList_toList]
  · rename_i h
    rw [read] at h
    cases h

/-- The alphabet of keywords, operators and numbers. -/
def isFixed (c : Char) : Bool :=
  c.isAlphanum ||
    c ∈ [' ', '_', '(', ')', ',', '.', '+', '-', '*', '/', '%', '=', '!', '<', '>', '&', '|', '^',
      '~', '\'']

/-- The text keeps to the alphabet of keywords, operators and numbers. -/
def IsFixed (s : String) : Prop :=
  s.toList.all isFixed = true

/-- A text is checked by its characters; a text that is spelled out is a list of them. -/
theorem IsFixed.ofList {cs : List Char} (h : cs.all isFixed = true) :
    IsFixed (String.ofList cs) := by
  rw [IsFixed, String.toList_ofList]
  exact h

/-- Fixed text is read character by character. -/
theorem glyphs_fixed {cs : List Char} (fixed : cs.all isFixed = true) (rest : List Char) :
    glyphs (cs ++ rest) = (glyphs rest).map (cs.map .char ++ ·) := by
  induction cs with
  | nil => simp
  | cons c cs ih =>
      rw [List.all_cons, Bool.and_eq_true] at fixed
      have other : c ≠ backtick := fun same => absurd fixed.1 (by rw [same]; decide)
      rw [List.cons_append, glyphs, if_neg other, ih fixed.2, Option.map_map]
      rfl

/-- Fixed text has no marks. -/
theorem filterMap_mark?_fixed {cs : List Char} (fixed : cs.all isFixed = true) :
    (cs.map Glyph.char).filterMap Glyph.mark? = [] := by
  rw [List.all_eq_true] at fixed
  rw [List.filterMap_map, List.filterMap_eq_nil_iff]
  intro c mem
  have other : c ≠ '?' := fun same => absurd (fixed c mem) (by rw [same]; decide)
  exact if_neg other

/-- No name begins where fixed text begins, as the backtick is not in its alphabet. -/
theorem IsFixed.head?_ne {s : String} (fixed : IsFixed s) (nonempty : s ≠ "") (rest : List Char) :
    (s.toList ++ rest).head? ≠ some backtick := by
  cases shape : s.toList with
  | nil => exact absurd (String.toList_eq_nil_iff.mp shape) nonempty
  | cons c cs =>
      rw [IsFixed, shape, List.all_cons, Bool.and_eq_true] at fixed
      intro same
      rw [Option.some.inj same] at fixed
      exact absurd fixed.1 (by decide)

end Text

/-- What a fragment takes from outside: a name or a value. -/
inductive Leaf where
  | ident (name : String)
  | bound (param : Parameter)
deriving DecidableEq

namespace Leaf

/-- What a reader sees of a leaf. -/
def mark : Leaf → Mark
  | ident name => .name name
  | bound _ => .placeholder

/-- The value of a leaf, if it has one. -/
def param? : Leaf → Option Parameter
  | ident _ => none
  | bound param => some param

/-- Give the placeholders among the marks their values, one after the other; every value must be
used. -/
def align : List Mark → List Parameter → Option (List Leaf)
  | [], [] => some []
  | .name s :: marks, params => (align marks params).map (.ident s :: ·)
  | .placeholder :: marks, param :: params => (align marks params).map (.bound param :: ·)
  | _, _ => none

/-- Values handed out in their order go to the leaves that they come from. -/
theorem align_mark (leaves : List Leaf) :
    align (leaves.map mark) (leaves.filterMap param?) = some leaves := by
  induction leaves with
  | nil => rfl
  | cons leaf leaves ih =>
      cases leaf with
      | ident name =>
          rw [List.map_cons, List.filterMap_cons_none rfl]
          simp [mark, align, ih]
      | bound param =>
          have value : param? (.bound param) = some param := rfl
          rw [List.map_cons, List.filterMap_cons_some value]
          simp [mark, align, ih]

/-- There are as many placeholders as values. -/
theorem count_placeholder (leaves : List Leaf) :
    (leaves.map mark).count .placeholder = (leaves.filterMap param?).length := by
  induction leaves with
  | nil => rfl
  | cons leaf leaves ih =>
      cases leaf with
      | ident name =>
          rw [List.map_cons, List.filterMap_cons_none rfl]
          simpa [mark] using ih
      | bound param =>
          have value : param? (.bound param) = some param := rfl
          rw [List.map_cons, List.filterMap_cons_some value]
          simpa [mark] using ih

end Leaf

namespace Fragment

open Text

mutual

/-- The names and values of a fragment, in the order of its parts. -/
def leaves : Fragment → List Leaf
  | .raw _ => []
  | .ident name => [.ident name]
  | .bound param => [.bound param]
  | .composite parts _ _ => leavesOfParts parts

/-- The names and values of several fragments. -/
def leavesOfParts : List Fragment → List Leaf
  | [] => []
  | part :: parts => part.leaves ++ leavesOfParts parts

end

mutual

/-- The parameters of a fragment are the values among its leaves, in the same order. -/
theorem params_eq_leaves : (f : Fragment) → f.params = f.leaves.filterMap Leaf.param?
  | .raw _ | .ident _ | .bound _ => rfl
  | .composite parts _ _ => paramsOfParts_eq_leaves parts

/-- The same for the parts of a composite, by recursion along with fragments. -/
theorem paramsOfParts_eq_leaves :
    (parts : List Fragment) → paramsOfParts parts = (leavesOfParts parts).filterMap Leaf.param?
  | [] => rfl
  | part :: parts => by
      rw [paramsOfParts, leavesOfParts, List.filterMap_append, params_eq_leaves part,
        paramsOfParts_eq_leaves parts]

end

/-- The placeholders of a fragment get their own values when the parameters are handed out in
order. -/
theorem align_leaves (f : Fragment) :
    Leaf.align (f.leaves.map Leaf.mark) f.params = some f.leaves := by
  rw [params_eq_leaves]
  exact Leaf.align_mark f.leaves

mutual

/-- The names and characters that a fragment is written with. -/
def glyphs : Fragment → List Glyph
  | .raw text => text.toList.map .char
  | .ident name => [.name name]
  | .bound _ => [.char '?']
  | .composite parts separator false => glyphsOfParts separator parts
  | .composite parts separator true =>
    .char '(' :: glyphsOfParts separator parts ++ [.char ')']

/-- The names and characters of several fragments with a separator between them. -/
def glyphsOfParts (separator : String) : List Fragment → List Glyph
  | [] => []
  | part :: parts => part.glyphs ++ glyphsAfter separator parts

/-- The names and characters of several fragments, each after a separator. -/
def glyphsAfter (separator : String) : List Fragment → List Glyph
  | [] => []
  | part :: parts => separator.toList.map .char ++ part.glyphs ++ glyphsAfter separator parts

end

/-- The text may begin or end with a quoted name, or is empty and shows what stands beside it. -/
def mayQuote : Fragment → Bool
  | .raw text => text == ""
  | .ident _ => true
  | .bound _ => false
  | .composite _ _ parens => !parens

/-- Two fragments may stand side by side without a separator. -/
def Apart (before after : Fragment) : Prop :=
  (before.mayQuote && after.mayQuote) = false

/-- Fixed text keeps to its alphabet, and no quoted name stands directly after another one. -/
inductive Spaced : Fragment → Prop
  | raw {text : String} (fixed : IsFixed text) : Spaced (.raw text)
  | ident (name : String) : Spaced (.ident name)
  | bound (param : Parameter) : Spaced (.bound param)
  | composite {parts : List Fragment} {separator : String} {parens : Bool}
      (fixed : IsFixed separator) (spaced : ∀ part ∈ parts, Spaced part)
      (apart : separator = "" → parts.IsChain Apart) :
      Spaced (.composite parts separator parens)

/-- The text that follows the first of several fragments. -/
theorem sqlAfter_cons (separator : String) (part : Fragment) (parts : List Fragment) :
    sqlAfter separator (part :: parts) = separator ++ sqlOfParts separator (part :: parts) := by
  rw [sqlAfter, sqlOfParts, String.append_assoc]

/-- A fragment that may not begin with a name begins with fixed text, a placeholder or a
parenthesis. -/
theorem Spaced.head?_ne {f : Fragment} (spaced : f.Spaced) (never : f.mayQuote = false)
    (rest : List Char) : (f.sql.toList ++ rest).head? ≠ some backtick := by
  cases spaced with
  | raw fixed =>
      rw [sql]
      exact fixed.head?_ne (by simpa [mayQuote] using never) rest
  | ident name => cases never
  | bound param =>
      rw [sql]
      intro same
      exact absurd (show '?' = backtick from Option.some.inj same) (by decide)
  | @composite parts separator parens =>
      cases parens with
      | false => cases never
      | true =>
          rw [sql, String.append_assoc, String.toList_append]
          intro same
          exact absurd (show '(' = backtick from Option.some.inj same) (by decide)

/-- The parts of a fragment are read one after the other, if each of them is. -/
theorem glyphs_sqlOfParts {separator : String} (fixed : IsFixed separator)
    {parts : List Fragment} (spaced : ∀ part ∈ parts, Spaced part)
    (found : ∀ part ∈ parts, ∀ rest : List Char,
      (part.mayQuote = true → rest.head? ≠ some backtick) →
        Text.glyphs (part.sql.toList ++ rest) = (Text.glyphs rest).map (part.glyphs ++ ·))
    (apart : separator = "" → parts.IsChain Apart)
    {rest : List Char} (clear : rest.head? ≠ some backtick) :
    Text.glyphs ((sqlOfParts separator parts).toList ++ rest) =
      (Text.glyphs rest).map (glyphsOfParts separator parts ++ ·) := by
  induction parts with
  | nil => simp [sqlOfParts, glyphsOfParts]
  | cons part parts ih =>
      have first := found part List.mem_cons_self
      cases parts with
      | nil =>
          have text : sqlOfParts separator [part] = part.sql := by
            rw [sqlOfParts, sqlAfter, String.append_empty]
          rw [text, first rest fun _ => clear]
          simp [glyphsOfParts, glyphsAfter]
      | cons next parts =>
          have others := ih (fun part mem => spaced part (List.mem_cons_of_mem _ mem))
            (fun part mem => found part (List.mem_cons_of_mem _ mem))
            fun empty => (List.isChain_cons_cons.mp (apart empty)).2
          -- What follows the first part shows no backtick if the first part may end with one.
          have follows : part.mayQuote = true →
              ((sqlAfter separator (next :: parts)).toList ++ rest).head? ≠ some backtick := by
            intro quoted
            by_cases empty : separator = ""
            · have unquoted : next.mayQuote = false := by
                have := (List.isChain_cons_cons.mp (apart empty)).1
                rw [Apart, quoted, Bool.true_and] at this
                exact this
              rw [sqlAfter, empty, String.empty_append, String.toList_append, List.append_assoc]
              exact (spaced next (by simp)).head?_ne unquoted _
            · rw [sqlAfter_cons, String.toList_append, List.append_assoc]
              exact fixed.head?_ne empty _
          rw [sqlOfParts, String.toList_append, List.append_assoc, first _ follows, sqlAfter_cons,
            String.toList_append, List.append_assoc, glyphs_fixed fixed, others, Option.map_map,
            Option.map_map]
          simp only [glyphsOfParts, glyphsAfter, Function.comp_def, List.append_assoc]

/-- A spaced fragment is read as it is written, whatever follows it but a backtick. -/
theorem Spaced.glyphs_append {f : Fragment} (spaced : f.Spaced) {rest : List Char}
    (clear : f.mayQuote = true → rest.head? ≠ some backtick) :
    Text.glyphs (f.sql.toList ++ rest) = (Text.glyphs rest).map (f.glyphs ++ ·) := by
  induction spaced generalizing rest with
  | @raw text fixed =>
      rw [sql, glyphs_fixed fixed, glyphs]
  | ident name =>
      rw [sql, glyphs_quoteIdentifier name (clear rfl)]
      rfl
  | bound param =>
      have other : ('?' : Char) ≠ backtick := by decide
      rw [sql, show "?".toList = ['?'] from rfl, List.cons_append, Text.glyphs, if_neg other]
      rfl
  | @composite parts separator parens fixed spaced apart ih =>
      have found {rest : List Char} (clear : rest.head? ≠ some backtick) :=
        glyphs_sqlOfParts fixed spaced (fun part mem _ => ih part mem) apart clear
      cases parens with
      | false =>
          rw [sql, glyphs]
          exact found (clear rfl)
      | true =>
          have closing : ("(".toList ++ ")".toList).all isFixed = true := by decide
          rw [List.all_append, Bool.and_eq_true] at closing
          rw [sql, String.toList_append, String.toList_append, List.append_assoc, List.append_assoc,
            glyphs_fixed closing.1, found, glyphs_fixed closing.2, glyphs, Option.map_map,
            Option.map_map]
          · simp [Function.comp_def]
          · intro same
            exact absurd (show ')' = backtick from Option.some.inj same) (by decide)

/-- A spaced fragment is read as the names and characters it is written with. -/
theorem Spaced.glyphs_sql {f : Fragment} (spaced : f.Spaced) :
    Text.glyphs f.sql.toList = some f.glyphs := by
  have all : Text.glyphs (f.sql.toList ++ []) = (Text.glyphs []).map (f.glyphs ++ ·) :=
    spaced.glyphs_append fun _ => nofun
  simpa [Text.glyphs] using all

/-- The marks among the glyphs of several fragments are their leaves, if this holds of each. -/
theorem filterMap_mark?_glyphsOfParts {separator : String} (fixed : IsFixed separator)
    {parts : List Fragment}
    (found : ∀ part ∈ parts, part.glyphs.filterMap Glyph.mark? = part.leaves.map Leaf.mark) :
    (glyphsOfParts separator parts).filterMap Glyph.mark? =
      (leavesOfParts parts).map Leaf.mark := by
  have after (parts : List Fragment)
      (found : ∀ part ∈ parts, part.glyphs.filterMap Glyph.mark? = part.leaves.map Leaf.mark) :
      (glyphsAfter separator parts).filterMap Glyph.mark? =
        (leavesOfParts parts).map Leaf.mark := by
    induction parts with
    | nil => rfl
    | cons part parts ih =>
        rw [List.forall_mem_cons] at found
        rw [glyphsAfter, leavesOfParts, List.filterMap_append, List.filterMap_append,
          filterMap_mark?_fixed fixed, found.1, ih found.2, List.nil_append, List.map_append]
  cases parts with
  | nil => rfl
  | cons part parts =>
      rw [List.forall_mem_cons] at found
      rw [glyphsOfParts, leavesOfParts, List.filterMap_append, found.1, after parts found.2,
        List.map_append]

/-- The marks among the glyphs of a spaced fragment are its leaves. -/
theorem Spaced.filterMap_mark? {f : Fragment} (spaced : f.Spaced) :
    f.glyphs.filterMap Glyph.mark? = f.leaves.map Leaf.mark := by
  induction spaced with
  | raw fixed => exact filterMap_mark?_fixed fixed
  | ident name => rfl
  | bound param => rfl
  | @composite parts separator parens fixed spaced apart ih =>
      have found := filterMap_mark?_glyphsOfParts fixed ih
      cases parens with
      | false => exact found
      | true =>
          rw [glyphs, List.filterMap_append, List.filterMap_cons_none rfl, found]
          exact List.append_nil _

/-- A reader finds the leaves of a spaced fragment in their order. -/
theorem Spaced.scan_sql {f : Fragment} (spaced : f.Spaced) :
    scan f.sql.toList = some (f.leaves.map Leaf.mark) := by
  rw [scan_eq_glyphs, spaced.glyphs_sql, Option.map_some, spaced.filterMap_mark?]

end Fragment

end SqlLowering
