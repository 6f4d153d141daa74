import SqlLowering.Proofs.Assembly

/-!
# Regular expressions from the start of a text

A match from the start of a text is written with a caret in front of the regular expression, put
there by joining two texts. The target reads the joined text, and there the caret belongs to the
first alternative only, because alternatives are divided last. So the first alternative has to match
at the start, and every other one may match anywhere. An expression without alternatives outside of
its groups is matched as intended.

Of the target it is assumed that a match is looked for anywhere in the text, that a caret matches
only at its start, and that alternatives are divided after everything else. Expressions are built
from characters, carets, groups, alternatives and repetitions (`*`, `+`, `?` and counts in braces);
a backslash makes a character of any sign. All other signs of the target are refused.

Main statement: `Expr.holds_regexFromStart_iff`.
-/

namespace SqlLowering

open Dialect Fragment

/-- A regular expression. -/
inductive Regex where
  | empty
  /-- the start of the text -/
  | start
  | char (c : Char)
  | concat (a b : Regex)
  | either (a b : Regex)
  | repeated (r : Regex) (least : Nat) (most : Option Nat)

namespace Regex

/-- So many matches, one after the other. -/
def Times (one : Bool → List Char → Prop) : Nat → Bool → List Char → Prop
  | 0, _, w => w = []
  | n + 1, atStart, w =>
    ∃ u v, w = u ++ v ∧ one atStart u ∧ Times one n (atStart && u.isEmpty) v

/-- The expression matches all of these characters, which stand at the start of a text or further
inside it. -/
def Matches : Regex → Bool → List Char → Prop
  | .empty, _, w => w = []
  | .start, atStart, w => atStart = true ∧ w = []
  | .char c, _, w => w = [c]
  | .concat a b, atStart, w =>
    ∃ u v, w = u ++ v ∧ a.Matches atStart u ∧ b.Matches (atStart && u.isEmpty) v
  | .either a b, atStart, w => a.Matches atStart w ∨ b.Matches atStart w
  | .repeated r least most, atStart, w =>
    ∃ n, least ≤ n ∧ (∀ m ∈ most, n ≤ m) ∧ Times r.Matches n atStart w

/-- The expression matches somewhere in a text. -/
def Occurs (r : Regex) (s : String) : Prop :=
  ∃ u w v, s.toList = u ++ (w ++ v) ∧ r.Matches u.isEmpty w

/-- The expression matches at the start of a text. -/
def Begins (r : Regex) (s : String) : Prop :=
  ∃ w v, s.toList = w ++ v ∧ r.Matches true w

/-- One after the other. -/
def ofPieces (pieces : List Regex) : Regex :=
  pieces.foldr .concat .empty

/-- A single piece matches as it does on its own: the empty expression at the end of the pieces
takes no character. -/
theorem matches_ofPieces_singleton {r : Regex} {atStart : Bool} {w : List Char} :
    (ofPieces [r]).Matches atStart w ↔ r.Matches atStart w := by
  constructor
  · rintro ⟨u, _, rfl, matched, rfl⟩
    rwa [List.append_nil]
  · intro matched
    exact ⟨w, [], (List.append_nil w).symm, matched, rfl⟩

/-- What matches at the start of a text occurs in it, with nothing before the match. -/
theorem Begins.occurs {r : Regex} {s : String} (h : r.Begins s) : r.Occurs s := by
  obtain ⟨w, v, whole, matched⟩ := h
  exact ⟨[], w, v, whole, matched⟩

/-- After a caret an expression matches at the start of a text only. -/
theorem matches_concat_start {r : Regex} {atStart : Bool} {w : List Char} :
    (concat start r).Matches atStart w ↔ atStart = true ∧ r.Matches true w := by
  constructor
  · rintro ⟨_, v, rfl, ⟨rfl, rfl⟩, matched⟩
    exact ⟨rfl, matched⟩
  · rintro ⟨rfl, matched⟩
    exact ⟨[], w, rfl, ⟨rfl, rfl⟩, matched⟩

/-- After a caret an expression occurs in a text exactly if it matches at the start, since the caret
matches nowhere else. -/
theorem occurs_concat_start {r : Regex} {s : String} : (concat start r).Occurs s ↔ r.Begins s := by
  constructor
  · rintro ⟨u, w, v, whole, matched⟩
    obtain ⟨first, matched⟩ := matches_concat_start.mp matched
    rw [List.isEmpty_iff.mp first] at whole
    exact ⟨w, v, whole, matched⟩
  · rintro ⟨w, v, whole, matched⟩
    exact ⟨[], w, v, whole, matches_concat_start.mpr ⟨rfl, matched⟩⟩

/-! ## The text of an expression -/

/-- A sign in the text of an expression. -/
inductive Sign where
  | char (c : Char)
  | start
  | opening
  | closing
  | bar
  | repetition (least : Nat) (most : Option Nat)

/-- The sign that a character is on its own. -/
def Sign.ofChar? (c : Char) : Option Sign :=
  match c with
  | '^' => some .start
  | '(' => some .opening
  | ')' => some .closing
  | '|' => some .bar
  | '*' => some (.repetition 0 none)
  | '+' => some (.repetition 1 none)
  | '?' => some (.repetition 0 (some 1))
  | '.' | '$' | '[' | ']' | '}' => none
  | c => some (.char c)

/-- The counts between braces: a number, a number with a comma, or two of them. -/
def counts? (cs : List Char) : Option (Nat × Option Nat) :=
  let digits := cs.takeWhile Char.isDigit
  let least := Text.ofDigits digits
  if digits = [] then none
  else
    match cs.drop digits.length with
    | [] => some (least, some least)
    | [','] => some (least, none)
    | ',' :: rest =>
      if rest.all Char.isDigit ∧ least ≤ Text.ofDigits rest then
        some (least, some (Text.ofDigits rest))
      else
        none
    | _ => none

/-- Where in its text a sign is being read. -/
inductive Place where
  | between
  | afterBackslash
  /-- between braces, with the characters since the first of them, last first -/
  | inBraces (counts : List Char)

/-- The signs of a text. -/
def signs? : Place → List Char → Option (List Sign)
  | .between, [] => some []
  | .between, '\\' :: cs => signs? .afterBackslash cs
  | .between, '{' :: cs => signs? (.inBraces []) cs
  | .between, c :: cs => do
    let sign ← Sign.ofChar? c
    let rest ← signs? .between cs
    some (sign :: rest)
  | .afterBackslash, c :: cs =>
    -- A letter or digit after a backslash stands for something else.
    if c.isAlphanum then none else (signs? .between cs).map (.char c :: ·)
  | .inBraces counts, '}' :: cs => do
    let (least, most) ← counts? counts.reverse
    let rest ← signs? .between cs
    some (.repetition least most :: rest)
  | .inBraces counts, c :: cs => signs? (.inBraces (c :: counts)) cs
  | .afterBackslash, [] | .inBraces _, [] => none

end Regex

/-- A regular expression by its alternatives outside of all groups. -/
structure Alternatives where
  first : Regex
  others : List Regex

namespace Alternatives

open Regex

/-- The alternatives as one expression. -/
def regex (a : Alternatives) : Regex :=
  a.others.foldl .either a.first

/-- The alternatives with a caret in front of the first. -/
def anchored (a : Alternatives) : Alternatives :=
  { a with first := .concat .start a.first }

/-- Alternatives match where one of them does, however they are nested. -/
theorem matches_regex {a : Alternatives} {atStart : Bool} {w : List Char} :
    a.regex.Matches atStart w ↔
      a.first.Matches atStart w ∨ ∃ r ∈ a.others, r.Matches atStart w := by
  obtain ⟨first, others⟩ := a
  rw [regex]
  dsimp only
  induction others generalizing first with
  | nil => simp
  | cons next others ih =>
      rw [List.foldl_cons, ih, List.exists_mem_cons_iff, ← or_assoc]
      rfl

/-- Alternatives occur where one of them does, since the place of the match can be chosen after the
alternative. -/
theorem occurs_regex {a : Alternatives} {s : String} :
    a.regex.Occurs s ↔ a.first.Occurs s ∨ ∃ r ∈ a.others, r.Occurs s := by
  simp only [Occurs, matches_regex]
  constructor
  · rintro ⟨u, w, v, whole, matched | ⟨r, mem, matched⟩⟩
    · exact .inl ⟨u, w, v, whole, matched⟩
    · exact .inr ⟨r, mem, u, w, v, whole, matched⟩
  · rintro (⟨u, w, v, whole, matched⟩ | ⟨r, mem, u, w, v, whole, matched⟩)
    · exact ⟨u, w, v, whole, .inl matched⟩
    · exact ⟨u, w, v, whole, .inr ⟨r, mem, matched⟩⟩

/-- Alternatives match at the start of a text if one of them does. -/
theorem begins_regex {a : Alternatives} {s : String} :
    a.regex.Begins s ↔ a.first.Begins s ∨ ∃ r ∈ a.others, r.Begins s := by
  simp only [Begins, matches_regex]
  constructor
  · rintro ⟨w, v, whole, matched | ⟨r, mem, matched⟩⟩
    · exact .inl ⟨w, v, whole, matched⟩
    · exact .inr ⟨r, mem, w, v, whole, matched⟩
  · rintro (⟨w, v, whole, matched⟩ | ⟨r, mem, w, v, whole, matched⟩)
    · exact ⟨w, v, whole, .inl matched⟩
    · exact ⟨w, v, whole, .inr ⟨r, mem, matched⟩⟩

/-- With a caret in front, the first alternative must match at the start, and the others need
not. -/
theorem occurs_anchored {a : Alternatives} {s : String} :
    a.anchored.regex.Occurs s ↔ a.first.Begins s ∨ ∃ r ∈ a.others, r.Occurs s := by
  rw [occurs_regex, anchored, occurs_concat_start]

/-- A match at the start is found with a caret in front of the first alternative too. -/
theorem occurs_anchored_of_begins {a : Alternatives} {s : String} (h : a.regex.Begins s) :
    a.anchored.regex.Occurs s := by
  apply occurs_anchored.mpr
  rcases begins_regex.mp h with begins | ⟨r, mem, begins⟩
  · exact .inl begins
  · exact .inr ⟨r, mem, begins.occurs⟩

/-- A group, or a whole text, on its way: the alternatives that are complete, and the pieces of the
next one, last first. -/
structure Frame where
  complete : List Regex := []
  pieces : List Regex := []

namespace Frame

/-- One more piece of the alternative at hand. -/
def push (r : Regex) (f : Frame) : Frame :=
  { f with pieces := r :: f.pieces }

/-- The alternative at hand is complete. -/
def divide (f : Frame) : Frame :=
  { complete := f.complete ++ [ofPieces f.pieces.reverse] }

/-- The last piece is repeated. There must be one, and it must not be a caret or a repetition. -/
def repeatLast? (least : Nat) (most : Option Nat) (f : Frame) : Option Frame :=
  match f.pieces with
  | [] | .start :: _ | .repeated .. :: _ => none
  | r :: pieces => some { f with pieces := .repeated r least most :: pieces }

/-- The alternatives of a group or text that has come to its end. -/
def alternatives (f : Frame) : Alternatives :=
  match f.complete with
  | [] => ⟨ofPieces f.pieces.reverse, []⟩
  | first :: others => ⟨first, others ++ [ofPieces f.pieces.reverse]⟩

/-- The same with a caret in front of the first alternative. -/
def anchor (f : Frame) : Frame :=
  match f.complete with
  | [] => { f with pieces := f.pieces ++ [.start] }
  | first :: others => { f with complete := .concat .start first :: others }

end Frame

/-- Read a sign. The open groups are given from the inside to the outside; the last is the whole
text. -/
def step : List Frame → Sign → Option (List Frame)
  | [], _ => none
  | f :: outer, .char c => some (f.push (.char c) :: outer)
  | f :: outer, .start => some (f.push .start :: outer)
  | f :: outer, .opening => some ({} :: f :: outer)
  | [_], .closing => none
  | f :: g :: outer, .closing => some (g.push f.alternatives.regex :: outer)
  | f :: outer, .bar => some (f.divide :: outer)
  | f :: outer, .repetition least most => (f.repeatLast? least most).map (· :: outer)

/-- The alternatives that a text stands for, if it is the text of an expression. -/
def ofText? (text : String) : Option Alternatives := do
  let signs ← signs? .between text.toList
  match ← signs.foldlM step [{}] with
  | [f] => some f.alternatives
  | _ => none

/-! ## A caret in front of the text -/

/-- The caret is in front of everything in a frame, so a piece at the end does not move it. -/
theorem Frame.push_anchor (r : Regex) (f : Frame) : f.anchor.push r = (f.push r).anchor := by
  obtain ⟨complete, pieces⟩ := f
  cases complete <;> rfl

/-- The first alternative takes the caret with it when it is complete. -/
theorem Frame.divide_anchor (f : Frame) : f.anchor.divide = f.divide.anchor := by
  obtain ⟨complete, pieces⟩ := f
  cases complete with
  | nil => simp [anchor, divide, ofPieces]
  | cons first others => rfl

/-- A repetition is of the last piece and never of this caret: if nothing else precedes it, it is
refused with the caret and without. -/
theorem Frame.repeatLast?_anchor (least : Nat) (most : Option Nat) (f : Frame) :
    f.anchor.repeatLast? least most = (f.repeatLast? least most).map anchor := by
  obtain ⟨complete, pieces⟩ := f
  cases complete with
  | nil =>
      cases pieces with
      | nil => rfl
      | cons r pieces => cases r <;> rfl
  | cons first others =>
      cases pieces with
      | nil => rfl
      | cons r pieces => cases r <;> rfl

/-- The caret of a frame is the caret of its first alternative. -/
theorem Frame.alternatives_anchor (f : Frame) :
    f.anchor.alternatives = f.alternatives.anchored := by
  obtain ⟨complete, pieces⟩ := f
  cases complete with
  | nil => simp [anchor, alternatives, anchored, ofPieces]
  | cons first others => rfl

/-- A caret in front of the whole text, which is the outermost of the open groups. -/
def anchorLast : List Frame → List Frame
  | [] => []
  | [f] => [f.anchor]
  | f :: g :: outer => f :: anchorLast (g :: outer)

/-- Reading on does not depend on a caret in front of the whole text. -/
theorem step_anchorLast (frames : List Frame) (sign : Sign) :
    step (anchorLast frames) sign = (step frames sign).map anchorLast := by
  cases frames with
  | nil => rfl
  | cons f outer =>
      cases outer with
      | nil =>
          cases sign with
          | char c => simp [step, anchorLast, Frame.push_anchor]
          | start => simp [step, anchorLast, Frame.push_anchor]
          | opening | closing => rfl
          | bar => simp [step, anchorLast, Frame.divide_anchor]
          | repetition least most =>
              simp only [step, anchorLast, Frame.repeatLast?_anchor, Option.map_map]
              rfl
      | cons g outer =>
          cases sign with
          | char | start | opening | bar => rfl
          | closing =>
              cases outer with
              | nil => simp [step, anchorLast, Frame.push_anchor]
              | cons h outer => rfl
          | repetition least most =>
              simp only [step, anchorLast, Option.map_map]
              rfl

/-- A caret in front of the outermost frame stays there while any number of signs is read. -/
theorem foldlM_step_anchorLast (signs : List Sign) (frames : List Frame) :
    signs.foldlM step (anchorLast frames) = (signs.foldlM step frames).map anchorLast := by
  induction signs generalizing frames with
  | nil => rfl
  | cons sign signs ih =>
      rw [List.foldlM_cons, List.foldlM_cons, step_anchorLast]
      cases step frames sign with
      | none => rfl
      | some next => exact ih next

/-- The target reads a text after a caret as the text's alternatives, the first of them after a
caret. -/
theorem ofText?_caret_append (text : String) :
    ofText? ("^" ++ text) = (ofText? text).map anchored := by
  have caret : signs? .between ("^" ++ text).toList =
      (signs? .between text.toList).map (.start :: ·) := by
    rw [String.toList_append]
    show (signs? .between text.toList).bind _ = _
    cases signs? .between text.toList <;> rfl
  rw [ofText?, ofText?, caret]
  cases signs? .between text.toList with
  | none => rfl
  | some signs =>
      have first : (Sign.start :: signs).foldlM step [{}] =
          (signs.foldlM step [{}]).map anchorLast := foldlM_step_anchorLast signs [{}]
      simp only [Option.map_some, Option.bind_eq_bind, Option.bind_some, first]
      cases signs.foldlM step [{}] with
      | none => rfl
      | some frames =>
          rcases frames with _ | ⟨f, _ | ⟨g, _ | ⟨h, outer⟩⟩⟩
          · rfl
          · exact congrArg some f.alternatives_anchor
          · rfl
          · rfl

end Alternatives

/-! ## Conditions of the target -/

/-- The text that a fragment stands for, given those of fragments other than a join of two and the
caret. -/
def Fragment.textWith (other : Fragment → Option String) : Fragment → Option String
  | .raw "'^'" => some "^"
  | .composite [.raw "CONCAT", .composite [a, b] ", " true] "" false => do
    let before ← a.textWith other
    let after ← b.textWith other
    some (before ++ after)
  | f => other f

/-- A condition holds that a text matches an expression. -/
def Fragment.HoldsWith (other : Fragment → Option String) : Fragment → Prop
  | .composite [.composite [text, .raw "RLIKE", pattern] " " false] "" true =>
    ∃ s ∈ text.textWith other, ∃ p ∈ pattern.textWith other, ∃ a ∈ Alternatives.ofText? p,
      a.regex.Occurs s
  | _ => False

/-- The condition of a match from the start is that of the expression after a caret. -/
theorem Fragment.holdsWith_regexFromStart {other : Fragment → Option String} {x y : Fragment}
    {s p : String} {a : Alternatives} (text : x.textWith other = some s)
    (expression : y.textWith other = some p) (read : Alternatives.ofText? p = some a) :
    (parenthesize (words (Rule.matchWords .regexFromStart x y))).HoldsWith other ↔
      a.anchored.regex.Occurs s := by
  have joined : (func "CONCAT" [.raw "'^'", y]).textWith other = some ("^" ++ p) := by
    show y.textWith other >>= (fun after => some ("^" ++ after)) = _
    rw [expression]
    rfl
  show (∃ s ∈ x.textWith other, ∃ p ∈ (func "CONCAT" [.raw "'^'", y]).textWith other,
    ∃ a ∈ Alternatives.ofText? p, a.regex.Occurs s) ↔ _
  rw [text, joined]
  simp only [Option.mem_some_iff, exists_eq_left', Alternatives.ofText?_caret_append, read,
    Option.map_some]

/-- A match from the start holds exactly if the first alternative outside of all groups matches at
the start of the text, or any other of them matches somewhere in it. This is the match of the
expression at the start of the text except where one of the others matches further inside only. -/
theorem Expr.holds_regexFromStart_iff {ctx : Context} {child regex : Expr} {f : Fragment}
    (done : ((pattern .regexFromStart child regex).lower ctx).outcome = .done f) :
    ∃ x y, (child.lower ctx).outcome = .done x ∧ (regex.lower ctx).outcome = .done y ∧
      ∀ (other : Fragment → Option String) (s p : String) (a : Alternatives),
        x.textWith other = some s → y.textWith other = some p → Alternatives.ofText? p = some a →
        (f.HoldsWith other ↔ a.first.Begins s ∨ ∃ r ∈ a.others, r.Occurs s) ∧
        ((f.HoldsWith other ↔ a.regex.Begins s) ↔
          ((∃ r ∈ a.others, r.Occurs s) → a.regex.Begins s)) := by
  obtain ⟨lowered, assembled⟩ := (lower_eq_done_iff (by intro h; cases h)).mp done
  refine ⟨child.fragment ctx, regex.fragment ctx,
    (lowered child (text_mem_children _ child regex)).outcome_eq,
    (lowered regex (regex_mem_children _ child regex)).outcome_eq, ?_⟩
  cases assembled
  intro other s p a text expression read
  have holds := holdsWith_regexFromStart text expression read
  constructor
  · exact holds.trans Alternatives.occurs_anchored
  · constructor
    · intro same occurs
      exact same.mp (holds.mpr (Alternatives.occurs_anchored.mpr (.inr occurs)))
    · intro kept
      constructor
      · intro held
        rcases Alternatives.occurs_anchored.mp (holds.mp held) with begins | occurs
        · exact Alternatives.begins_regex.mpr (.inl begins)
        · exact kept occurs
      · intro begins
        exact holds.mpr (Alternatives.occurs_anchored_of_begins begins)

/-- The text of a column in a row of one column, and of a value. -/
def Fragment.columnText (row : String) : Fragment → Option String
  | .ident _ => some row
  | .bound ⟨.string s, _⟩ => some s
  | _ => none

/-- The expression `a|b` does not match at the start of `xb`, and the condition holds there. Within
a group the two alternatives are one, and the condition does not hold. -/
theorem Expr.holds_regexFromStart_iff_of_alternatives :
    (∃ f, ((pattern .regexFromStart (column ⟨1, "s", none, .string⟩)
        (literal (.string "a|b") .string)).lower {}).outcome = .done f ∧
      f.HoldsWith (columnText "xb") ∧
      ∃ a ∈ Alternatives.ofText? "a|b", ¬ a.regex.Begins "xb") ∧
    ∃ f, ((pattern .regexFromStart (column ⟨1, "s", none, .string⟩)
        (literal (.string "(a|b)") .string)).lower {}).outcome = .done f ∧
      ¬ f.HoldsWith (columnText "xb") := by
  have text : ((column ⟨1, "s", none, .string⟩).lower {}).outcome = .done (.ident "s") := by
    rw [lower_column]
    rfl
  have expression (p : String) :
      ((literal (.string p) .string).lower {}).outcome = .done (bindText p) := by
    rw [lower_literal]
    rfl
  have lowered (p : String) : ((pattern .regexFromStart (column ⟨1, "s", none, .string⟩)
      (literal (.string p) .string)).lower {}).outcome = .done (parenthesize (words
        (Rule.matchWords .regexFromStart (.ident "s") (bindText p)))) := by
    rw [lower_pattern, lower_column, lower_literal]
    rfl
  have neither : ¬ (Regex.either (.ofPieces [.char 'a']) (.ofPieces [.char 'b'])).Begins "xb" := by
    rintro ⟨w, v, whole, matched | matched⟩
    all_goals
      rw [Regex.matches_ofPieces_singleton.mp matched] at whole
      cases whole
  constructor
  · obtain ⟨x, y, hx, hy, holds⟩ := holds_regexFromStart_iff (lowered "a|b")
    cases (text.symm.trans hx)
    cases ((expression _).symm.trans hy)
    refine ⟨_, lowered "a|b", ?_, _, rfl, neither⟩
    apply (holds (columnText "xb") "xb" "a|b" _ rfl rfl rfl).1.mpr
    right
    exact ⟨_, List.mem_singleton_self _, ['x'], ['b'], [], rfl,
      Regex.matches_ofPieces_singleton.mpr rfl⟩
  · obtain ⟨x, y, hx, hy, holds⟩ := holds_regexFromStart_iff (lowered "(a|b)")
    cases (text.symm.trans hx)
    cases ((expression _).symm.trans hy)
    refine ⟨_, lowered "(a|b)", ?_⟩
    rw [(holds (columnText "xb") "xb" "(a|b)" _ rfl rfl rfl).1]
    rintro (⟨w, v, whole, matched⟩ | ⟨r, mem, _⟩)
    · exact neither ⟨w, v, whole, Regex.matches_ofPieces_singleton.mp matched⟩
    · cases mem

end SqlLowering
