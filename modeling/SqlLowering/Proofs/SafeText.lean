import Mathlib.Data.List.Chain
import SqlLowering.Number.Decimal
import SqlLowering.Number.Notation
import SqlLowering.Proofs.Scanning

/-!
# Texts that start nothing

A text is safe when it can stand anywhere in a statement without changing how the rest is read: its
parentheses are balanced, no statement ends in it, no comment begins in it, and it opens no string
but the one around a caret. Safe texts may be put together as long as no comment begins where they
meet, so a safe text may stand in parentheses and beside a separator.

Keywords, operators and numbers are safe by their characters alone. They are called words here;
`Text.IsWord` is checked by evaluation for a word that is spelled out, and is proved below for the
texts of integers, decimals and approximate numbers.
-/

namespace SqlLowering

namespace Text

/-- Parentheses are balanced: read from the left, never more of them are closed than were opened,
and in the end all are closed. -/
structure Balanced (cs : List Char) : Prop where
  opened : ∀ p, p <+: cs → p.count ')' ≤ p.count '('
  closed : cs.count ')' = cs.count '('

namespace Balanced

/-- A text without parentheses has none to close. -/
theorem of_not_mem {cs : List Char} (opening : '(' ∉ cs) (closing : ')' ∉ cs) : Balanced cs where
  opened p h := by
    have unclosed : ')' ∉ p := fun mem => closing (h.subset mem)
    rw [List.count_eq_zero_of_not_mem unclosed]
    exact Nat.zero_le _
  closed := by
    rw [List.count_eq_zero_of_not_mem opening, List.count_eq_zero_of_not_mem closing]

/-- Balanced texts side by side; the first has closed all of its own where the second begins. -/
theorem append {cs ds : List Char} (first : Balanced cs) (second : Balanced ds) :
    Balanced (cs ++ ds) where
  opened p h := by
    rcases List.prefix_or_prefix_of_prefix h (List.prefix_append cs ds) with short | ⟨q, rfl⟩
    · exact first.opened p short
    · have rest := second.opened q ((List.prefix_append_right_inj cs).mp h)
      have whole := first.closed
      rw [List.count_append, List.count_append]
      omega
  closed := by
    rw [List.count_append, List.count_append, first.closed, second.closed]

/-- A balanced text in parentheses; the depth is one more inside. -/
theorem enclose {cs : List Char} (inner : Balanced cs) : Balanced ('(' :: cs ++ [')']) where
  opened p h := by
    have whole := inner.closed
    rcases List.prefix_concat_iff.mp h with rfl | h
    · simp [whole]
    · rcases List.prefix_cons_iff.mp h with rfl | ⟨q, rfl, inside⟩
      · exact Nat.le_refl _
      · have rest := inner.opened q inside
        rw [List.count_cons_of_ne (by decide), List.count_cons_self]
        omega
  closed := by
    simp [inner.closed]

end Balanced

/-- Two characters that begin a comment if nothing stands between them. -/
def OpensComment (a b : Char) : Prop :=
  a = '-' ∧ b = '-' ∨ a = '/' ∧ b = '*'

instance (a b : Char) : Decidable (OpensComment a b) :=
  inferInstanceAs (Decidable (_ ∨ _))

/-- A text in which nothing begins that would go on after it: no statement ends, no comment begins,
and no string is opened but around a caret. -/
structure IsQuiet (cs : List Char) : Prop where
  /-- no end of a statement, no comment to the end of the line, no other quotes, and no escapes -/
  plain : ∀ c ∈ [';', '#', '"', '\\'], c ∉ cs
  dashes : ¬ ['-', '-'] <:+: cs
  comment : ¬ ['/', '*'] <:+: cs
  /-- every single quote is the first or the last character of a quoted caret -/
  quotes : ∀ before after, cs = before ++ '\'' :: after →
    ['^', '\''] <+: after ∨ ['\'', '^'] <:+ before

/-- A text that leaves the reading of what stands around it unchanged. -/
structure IsSafe (cs : List Char) : Prop extends IsQuiet cs where
  balanced : Balanced cs

/-- No comment begins in a text if none begins with two characters of it in a row. -/
theorem isChain_not_opensComment_iff {cs : List Char} :
    (cs.IsChain fun a b => ¬ OpensComment a b) ↔ ¬ ['-', '-'] <:+: cs ∧ ¬ ['/', '*'] <:+: cs := by
  rw [List.isChain_iff_forall_rel_of_append_cons_cons]
  constructor
  · intro chain
    constructor
    · rintro ⟨before, after, same⟩
      exact chain (by simpa using same.symm) (.inl ⟨rfl, rfl⟩)
    · rintro ⟨before, after, same⟩
      exact chain (by simpa using same.symm) (.inr ⟨rfl, rfl⟩)
  · rintro ⟨dashes, comment⟩ a b before after same (⟨rfl, rfl⟩ | ⟨rfl, rfl⟩)
    · exact dashes ⟨before, after, by simp [same]⟩
    · exact comment ⟨before, after, by simp [same]⟩

/-- Two texts may meet, because no comment begins there. -/
def MayMeet (cs ds : List Char) : Prop :=
  ∀ a ∈ cs.getLast?, ∀ b ∈ ds.head?, ¬ OpensComment a b

/-- A text may stand before anything if it does not end with a character that can begin a comment.
-/
theorem MayMeet.of_getLast? {cs : List Char} (last : ∀ a ∈ cs.getLast?, a ≠ '-' ∧ a ≠ '/')
    (ds : List Char) : MayMeet cs ds := by
  rintro a mem b - (⟨same, -⟩ | ⟨same, -⟩)
  · exact (last a mem).1 same
  · exact (last a mem).2 same

/-- A text may stand after anything if it does not begin with the second character of a comment. -/
theorem MayMeet.of_head? {ds : List Char} (first : ∀ b ∈ ds.head?, b ≠ '-' ∧ b ≠ '*')
    (cs : List Char) : MayMeet cs ds := by
  rintro a - b mem (⟨-, same⟩ | ⟨-, same⟩)
  · exact (first b mem).1 same
  · exact (first b mem).2 same

section Quiet

variable {cs ds : List Char}

/-- No two neighbours in a quiet text begin a comment. -/
theorem IsQuiet.isChain (quiet : IsQuiet cs) : cs.IsChain fun a b => ¬ OpensComment a b :=
  isChain_not_opensComment_iff.mpr ⟨quiet.dashes, quiet.comment⟩

/-- Quiet texts side by side. A quote of the one has its caret there, whatever the other adds. -/
theorem IsQuiet.append (first : IsQuiet cs) (second : IsQuiet ds) (meet : MayMeet cs ds) :
    IsQuiet (cs ++ ds) := by
  have chain : (cs ++ ds).IsChain fun a b => ¬ OpensComment a b :=
    List.isChain_append.mpr ⟨first.isChain, second.isChain, meet⟩
  obtain ⟨dashes, comment⟩ := isChain_not_opensComment_iff.mp chain
  refine ⟨?_, dashes, comment, ?_⟩
  · intro c listed mem
    rcases List.mem_append.mp mem with mem | mem
    · exact first.plain c listed mem
    · exact second.plain c listed mem
  · intro before after same
    rcases List.append_eq_append_iff.mp same with ⟨middle, rfl, inside⟩ | ⟨middle, rfl, inside⟩
    · rcases second.quotes middle after inside with right | left
      · exact .inl right
      · exact .inr (left.trans (List.suffix_append cs middle))
    · cases middle with
      | nil =>
          rcases second.quotes [] after (by simpa using inside.symm) with right | left
          · exact .inl right
          · exact absurd left (by simp)
      | cons c rest =>
          obtain ⟨rfl, rfl⟩ := List.cons.inj inside
          rcases first.quotes before rest rfl with right | left
          · exact .inl (right.trans (List.prefix_append rest ds))
          · exact .inr left

/-- Without quotes, the characters of a text and their neighbours decide. -/
theorem IsQuiet.of_isChain (clear : ∀ c ∈ [';', '#', '"', '\\', '\''], c ∉ cs)
    (chain : cs.IsChain fun a b => ¬ OpensComment a b) : IsQuiet cs := by
  obtain ⟨dashes, comment⟩ := isChain_not_opensComment_iff.mp chain
  refine ⟨?_, dashes, comment, ?_⟩
  · intro c listed
    exact clear c (List.mem_append_left ['\''] listed)
  · intro before after same
    exact absurd (by simp [same]) (clear '\'' (by simp))

/-- A single character is safe unless it is one of those that mean something alone. -/
theorem IsSafe.singleton {c : Char} (other : c ∉ [';', '#', '"', '\\', '\'', '(', ')']) :
    IsSafe [c] := by
  simp only [List.mem_cons, List.not_mem_nil, or_false, not_or] at other
  refine ⟨.of_isChain ?_ (.singleton c), .of_not_mem ?_ ?_⟩
  all_goals simp [eq_comm, other]

/-- Safe texts side by side. -/
theorem IsSafe.append (first : IsSafe cs) (second : IsSafe ds) (meet : MayMeet cs ds) :
    IsSafe (cs ++ ds) :=
  ⟨first.toIsQuiet.append second.toIsQuiet meet, first.balanced.append second.balanced⟩

/-- A safe text in parentheses. -/
theorem IsSafe.enclose (safe : IsSafe cs) : IsSafe ('(' :: cs ++ [')']) := by
  have opening : IsQuiet ['('] := .of_isChain (by simp) (by simp)
  have closing : IsQuiet [')'] := .of_isChain (by simp) (by simp)
  have before : IsQuiet (['('] ++ cs) :=
    opening.append safe.toIsQuiet (.of_getLast? (by simp) cs)
  exact ⟨before.append closing (.of_head? (by simp) _), safe.balanced.enclose⟩

end Quiet

/-- A safe text whose parentheses are closed again is checked by its pieces. -/
theorem IsSafe.call (name : IsSafe cs) (args : IsSafe ds) : IsSafe (cs ++ ('(' :: ds ++ [')'])) :=
  name.append args.enclose (.of_head? (by simp) cs)

/-! ## Words -/

/-- The alphabet of words: fixed text without parentheses and quotes. -/
def isPlain (c : Char) : Bool :=
  isFixed c && c ∉ ['(', ')', '\'']

/-- A keyword, an operator or a number: plain characters, among which no comment begins. -/
def IsWord (cs : List Char) : Prop :=
  cs.all isPlain = true ∧ cs.IsChain fun a b => ¬ OpensComment a b

instance (cs : List Char) : Decidable (IsWord cs) :=
  inferInstanceAs (Decidable (_ ∧ _))

namespace IsWord

variable {cs ds : List Char}

/-- Plain characters are fixed text, so a word has no names and no placeholders in it. -/
theorem isFixed (word : IsWord cs) : cs.all isFixed = true := by
  rw [List.all_eq_true]
  intro c mem
  exact (Bool.and_eq_true _ _ ▸ List.all_eq_true.mp word.1 c mem).1

/-- A character outside of the alphabet does not occur in a word. -/
theorem not_mem (word : IsWord cs) {c : Char} (other : isPlain c = false) : c ∉ cs := by
  intro mem
  rw [List.all_eq_true.mp word.1 c mem] at other
  cases other

/-- A word is safe, since all that could begin something is outside of its alphabet. -/
theorem isSafe (word : IsWord cs) : IsSafe cs where
  toIsQuiet := by
    refine .of_isChain ?_ word.2
    intro c listed
    have others : [';', '#', '"', '\\', '\''].all (!isPlain ·) = true := rfl
    exact word.not_mem (by simpa using List.all_eq_true.mp others c listed)
  balanced := .of_not_mem (word.not_mem rfl) (word.not_mem rfl)

/-- Words side by side, where no comment begins between them. -/
theorem append (first : IsWord cs) (second : IsWord ds) (meet : MayMeet cs ds) :
    IsWord (cs ++ ds) := by
  refine ⟨?_, List.isChain_append.mpr ⟨first.2, second.2, meet⟩⟩
  rw [List.all_append, first.1, second.1]
  rfl

end IsWord

/-! ## Numbers -/

/-- The characters of a number but for its signs. -/
def isNumeric (c : Char) : Bool :=
  c.isDigit || c ∈ ['.', 'e']

section Numbers

variable {cs ds : List Char}

theorem isNumeric_of_isDigit {c : Char} (h : c.isDigit = true) : isNumeric c = true := by
  simp [isNumeric, h]

/-- The characters of a number are among those of a word. -/
theorem isPlain_of_isNumeric {c : Char} (h : isNumeric c = true) : isPlain c = true := by
  rw [isNumeric, Bool.or_eq_true, decide_eq_true_eq] at h
  rcases h with digit | listed
  · have other : c ∉ ['(', ')', '\''] := by
      simp only [List.mem_cons, List.not_mem_nil, or_false]
      rintro (rfl | rfl | rfl) <;> cases digit
    simp [isPlain, isFixed, Char.isAlphanum, digit, other]
  · simp only [List.mem_cons, List.not_mem_nil, or_false] at listed
    rcases listed with rfl | rfl <;> rfl

/-- Parts of a list keep to its alphabet. -/
theorem all_of_subset {p : Char → Bool} (subset : cs ⊆ ds) (h : ds.all p = true) :
    cs.all p = true := by
  rw [List.all_eq_true] at h ⊢
  intro c mem
  exact h c (subset mem)

/-- A number without a sign is a word. -/
theorem IsWord.of_isNumeric (numeric : cs.all isNumeric = true) : IsWord cs := by
  rw [List.all_eq_true] at numeric
  constructor
  · rw [List.all_eq_true]
    intro c mem
    exact isPlain_of_isNumeric (numeric c mem)
  · rw [List.isChain_iff_forall_rel_of_append_cons_cons]
    rintro a b before after rfl (⟨rfl, -⟩ | ⟨rfl, -⟩)
    · exact absurd (numeric '-' (by simp)) (by decide)
    · exact absurd (numeric '/' (by simp)) (by decide)

/-- A sign may stand before a number. -/
theorem IsWord.negated (word : IsWord cs) (first : ∀ c ∈ cs.head?, isNumeric c = true) :
    IsWord ('-' :: cs) := by
  have sign : IsWord ['-'] := by decide
  refine sign.append word (.of_head? ?_ _)
  intro c mem
  have numeric := first c mem
  constructor
  · rintro rfl
    exact absurd numeric (by decide)
  · rintro rfl
    exact absurd numeric (by decide)

/-- A natural number is written with digits only. -/
theorem isNumeric_digits (n : Nat) : (digits n).all isNumeric = true := by
  rw [List.all_eq_true]
  intro c mem
  exact isNumeric_of_isDigit (Nat.isDigit_of_mem_toDigits (by decide) (by decide) mem)

/-- Zeros in front are digits as well. -/
theorem isNumeric_padded (width n : Nat) : (padded width n).all isNumeric = true := by
  rw [padded, List.all_append, isNumeric_digits, Bool.and_true, List.all_eq_true]
  intro c mem
  rw [List.eq_of_mem_replicate mem]
  rfl

theorem head?_isNumeric (numeric : cs.all isNumeric = true) :
    ∀ c ∈ cs.head?, isNumeric c = true := by
  intro c mem
  exact List.all_eq_true.mp numeric c (List.mem_of_mem_head? mem)

/-- A natural number has no sign, so it is a word by its characters. -/
theorem isWord_natText (n : Nat) : IsWord (natText n).toList := by
  rw [natText, String.toList_ofList]
  exact .of_isNumeric (isNumeric_digits n)

/-- A negative number has one sign, and a digit follows it. -/
theorem isWord_intText (i : Int) : IsWord (intText i).toList := by
  rw [intText]
  split
  · have numeric := isNumeric_digits i.natAbs
    rw [natText, String.toList_append, String.toList_ofList, String.toList_ofList]
    exact (IsWord.of_isNumeric numeric).negated (head?_isNumeric numeric)
  · exact isWord_natText _

end Numbers

end Text

namespace Number

open Text

/-- The text of a decimal is a number after its sign. -/
theorem Decimal.exists_numeric (d : Decimal) : ∃ body : List Char, body.all isNumeric = true ∧
    d.text.toList = (if d.negative then "-" else "").toList ++ body := by
  have digits := isNumeric_padded (d.scale + 1) d.size
  have whole (n : Nat) := all_of_subset (List.take_subset n _) digits
  have fraction (n : Nat) := all_of_subset (List.drop_subset n _) digits
  rw [Decimal.text]
  generalize shape : (if d.scale = 0 then _ else _ : List Char) = body
  have numeric : body.all isNumeric = true := by
    rw [← shape]
    split
    · exact whole _
    · rw [List.all_append, List.all_cons, whole, fraction]
      rfl
  refine ⟨body, numeric, ?_⟩
  rw [String.toList_append, String.toList_ofList]

/-- The digits of a decimal and its point make a word, with at most one sign before them. -/
theorem Decimal.isWord_text (d : Decimal) : IsWord d.text.toList := by
  obtain ⟨body, numeric, shape⟩ := d.exists_numeric
  have word := IsWord.of_isNumeric numeric
  rw [shape]
  split
  · exact word.negated (head?_isNumeric numeric)
  · exact word

/-- Trimming leaves some of the digits, or a single zero. -/
theorem Magnitude.isNumeric_trimZeros {ds : List Char} (h : ds.all isNumeric = true) :
    (trimZeros ds).all isNumeric = true := by
  have kept : (ds.reverse.dropWhile (· == '0')).reverse ⊆ ds := by
    intro c mem
    rw [List.mem_reverse] at mem
    exact List.mem_reverse.mp ((List.dropWhile_sublist _).subset mem)
  rw [trimZeros]
  split
  · rfl
  · exact all_of_subset kept h

/-- The shortest digits are those of a natural number, after trimming. -/
theorem Magnitude.isNumeric_shortest (x : Magnitude) :
    x.shortest.digits.all isNumeric = true := by
  rw [shortest]
  split
  · rfl
  · simp only
    generalize search : List.findSome? _ _ = found
    cases found with
    | none => rfl
    | some y =>
        obtain ⟨count, -, hit⟩ := List.exists_of_findSome?_eq_some search
        obtain ⟨n, -, rfl⟩ := Option.map_eq_some_iff.mp hit
        exact isNumeric_trimZeros (isNumeric_digits n)

/-- The digits and the mark of the exponent are a number of their own, and the exponent may have a
sign. -/
theorem Scientific.exists_withExponent {x : Scientific} (h : x.digits.all isNumeric = true) :
    ∃ mantissa, mantissa.all isNumeric = true ∧
      x.withExponent.toList = mantissa ++ 'e' :: (intText x.exponent).toList := by
  have first := all_of_subset (List.take_subset 1 _) h
  have others := all_of_subset (List.drop_subset 1 _) h
  rw [withExponent, String.toList_append, String.toList_append, String.toList_ofList,
    List.append_assoc]
  refine ⟨_, ?_, rfl⟩
  rw [List.all_append, first]
  split
  · rfl
  · rw [List.all_cons, others]
    rfl

/-- Of the two signs of an approximate number, one stands before digits and the other after the mark
of the exponent, so no two of them meet. -/
theorem Reading.isWord_scientific? {x : Reading} {s : String} (h : x.scientific? = some s) :
    IsWord s.toList := by
  cases x with
  | nan => cases h
  | infinite negative => cases h
  | finite negative size =>
      obtain ⟨mantissa, numeric, text⟩ := Scientific.exists_withExponent size.isNumeric_shortest
      have mark : IsWord ['e'] := by decide
      have front : IsWord mantissa := .of_isNumeric numeric
      have word : IsWord size.shortest.withExponent.toList := by
        rw [text]
        refine front.append (mark.append (isWord_intText _) (.of_getLast? ?_ _)) (.of_head? ?_ _)
        · simp
        · simp
      cases h
      rw [signed]
      split
      · rw [String.toList_append]
        refine word.negated ?_
        rw [text]
        cases mantissa with
        | nil => simp [isNumeric]
        | cons c rest => exact fun d same => head?_isNumeric numeric d same
      · exact word

end Number

namespace Text

/-- A piece of fixed text that is written as it stands. -/
structure IsPhrase (s : String) : Prop where
  fixed : IsFixed s
  safe : IsSafe s.toList

/-- A word is written as it stands. -/
theorem IsPhrase.of_isWord {s : String} (word : IsWord s.toList) : IsPhrase s :=
  ⟨word.isFixed, word.isSafe⟩

/-- A word that is spelled out is a list of characters, and is checked by evaluation. -/
theorem IsPhrase.word {cs : List Char} (checked : decide (IsWord cs) = true) :
    IsPhrase (String.ofList cs) := by
  apply IsPhrase.of_isWord
  rw [String.toList_ofList]
  exact of_decide_eq_true checked

/-- A name that is spelled out, and a word in parentheses after it. -/
theorem IsPhrase.call (cs ds : List Char) (name : IsWord cs) (arg : IsWord ds) :
    IsPhrase (String.ofList (cs ++ ('(' :: ds ++ [')']))) := by
  constructor
  · apply IsFixed.ofList
    simp only [List.all_append, List.all_cons, name.isFixed, arg.isFixed]
    rfl
  · rw [String.toList_ofList]
    exact name.isSafe.call arg.isSafe

/-- The caret in quotes, the only string that is written out. -/
theorem IsPhrase.caret : IsPhrase "'^'" where
  fixed := .ofList rfl
  safe := by
    have text : "'^'".toList = ['\'', '^', '\''] := rfl
    rw [text]
    refine ⟨⟨by simp, by decide, by decide, ?_⟩, .of_not_mem (by simp) (by simp)⟩
    intro before after same
    rcases before with - | ⟨a, - | ⟨b, - | ⟨c, rest⟩⟩⟩
    · left
      cases same
      exact List.prefix_rfl
    · simp at same
    · right
      obtain ⟨rfl, rfl, -⟩ : '\'' = a ∧ '^' = b ∧ _ := by simpa using same
      exact List.suffix_rfl
    · simp at same

end Text

end SqlLowering
