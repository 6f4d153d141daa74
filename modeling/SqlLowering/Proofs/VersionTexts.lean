import SqlLowering.Config
import SqlLowering.Proofs.ReadBack

/-!
# The texts of a version

Which texts are read as a version is said by a grammar: one to three numbers with points between
them, each perhaps after a plus sign and with any number of zeros in front, and blanks around the
whole. The grammar does not say how a text is read. That it is what reading accepts comes from three
facts: blanks are found from both ends, the text is divided at all of its points, and neither a
blank nor a point can be a part of a number.

Main statement: `Version.parse_iff_isText`.
-/

namespace SqlLowering

namespace Text

/-! ## Blanks around a text -/

variable {before body after : List Char}

/-- No blank stands at the front. -/
def NoBlank (cs : List Char) : Prop :=
  ∀ c ∈ cs.head?, isBlank c = false

/-- Blanks are passed over up to the first other character. -/
theorem skipBlanks_append (blank : ∀ c ∈ before, isBlank c = true) (front : NoBlank body) :
    skipBlanks (before ++ body) = body := by
  rw [skipBlanks, List.dropWhile_append_of_pos blank, ← skipBlanks]
  cases body with
  | nil => rfl
  | cons c body => exact skipBlanks_cons (front c rfl)

/-- Blanks on both sides are taken away. -/
theorem trimBlanks_append (blank : ∀ c ∈ before, isBlank c = true)
    (blank' : ∀ c ∈ after, isBlank c = true) (nonempty : body ≠ []) (front : NoBlank body)
    (back : NoBlank body.reverse) : trimBlanks (before ++ body ++ after) = body := by
  have inner : NoBlank (body ++ after) := by
    rwa [NoBlank, List.head?_append_of_ne_nil _ nonempty]
  have reversed : ∀ c ∈ after.reverse, isBlank c = true := by
    intro c mem
    exact blank' c (List.mem_reverse.mp mem)
  rw [trimBlanks, List.append_assoc, skipBlanks_append blank inner, List.reverse_append,
    skipBlanks_append reversed back, List.reverse_reverse]

/-- What is passed over are blanks. -/
theorem exists_skipBlanks (cs : List Char) :
    ∃ before, cs = before ++ skipBlanks cs ∧ ∀ c ∈ before, isBlank c = true :=
  ⟨cs.takeWhile isBlank, List.takeWhile_append_dropWhile.symm,
    List.all_eq_true.mp List.all_takeWhile⟩

/-- What is taken away are blanks. -/
theorem exists_trimBlanks (cs : List Char) : ∃ before after, cs = before ++ trimBlanks cs ++ after ∧
    (∀ c ∈ before, isBlank c = true) ∧ ∀ c ∈ after, isBlank c = true := by
  obtain ⟨before, front, blank⟩ := exists_skipBlanks cs
  obtain ⟨after, back, blank'⟩ := exists_skipBlanks (skipBlanks cs).reverse
  have rest : skipBlanks cs = trimBlanks cs ++ after.reverse := by
    rw [trimBlanks, ← List.reverse_append, ← back, List.reverse_reverse]
  refine ⟨before, after.reverse, ?_, blank, ?_⟩
  · rw [List.append_assoc, ← rest]
    exact front
  · intro c mem
    exact blank' c (List.mem_reverse.mp mem)

/-! ## Parts between separators -/

variable {sep : Char}

/-- Without a separator, the text is one part. -/
theorem splitAt_of_not_mem (absent : sep ∉ body) : splitAt sep body = [body] := by
  induction body with
  | nil => rfl
  | cons c body ih =>
      have other : c ≠ sep := (List.ne_of_not_mem_cons absent).symm
      rw [splitAt, if_neg other, ih (List.not_mem_of_not_mem_cons absent)]

/-- The first separator ends the first part. -/
theorem splitAt_append_cons (absent : sep ∉ before) :
    splitAt sep (before ++ sep :: after) = before :: splitAt sep after := by
  induction before with
  | nil => rw [List.nil_append, splitAt, if_pos rfl]
  | cons c before ih =>
      have other : c ≠ sep := (List.ne_of_not_mem_cons absent).symm
      rw [List.cons_append, splitAt, if_neg other, ih (List.not_mem_of_not_mem_cons absent)]

/-- The parts with the separator between them are the whole text. -/
theorem intercalate_splitAt (sep : Char) (cs : List Char) :
    [sep].intercalate (splitAt sep cs) = cs := by
  induction cs with
  | nil => rfl
  | cons c cs ih =>
      obtain ⟨part, parts, split⟩ := List.exists_cons_of_ne_nil (splitAt_ne_nil sep cs)
      rw [split] at ih
      by_cases same : c = sep
      · rw [splitAt, if_pos same, split, List.intercalate_cons_cons, ih, same]
        rfl
      · rw [splitAt, if_neg same, split]
        cases parts with
        | nil =>
            rw [List.intercalate_singleton] at ih ⊢
            rw [ih]
        | cons next parts =>
            rw [List.intercalate_cons_cons] at ih ⊢
            rw [← ih]
            rfl

end Text

namespace Dialect.Version

open Text

/-! ## The grammar -/

/-- The characters of a number in a version: digits, perhaps after a plus sign. -/
def IsPart (number : UInt32) (cs : List Char) : Prop :=
  ∃ ds, (cs = ds ∨ cs = '+' :: ds) ∧ ds ≠ [] ∧ (∀ c ∈ ds, c.isDigit = true) ∧
    ofDigits ds = number.toNat

/-- The characters of a version: one to three numbers with points between them. Those that are
missing are zero. -/
inductive IsSpelled : Version → List Char → Prop
  | one {x : UInt32} {a : List Char} : IsPart x a → IsSpelled ⟨x, 0, 0⟩ a
  | two {x y : UInt32} {a b : List Char} : IsPart x a → IsPart y b →
      IsSpelled ⟨x, y, 0⟩ (a ++ '.' :: b)
  | three {x y z : UInt32} {a b c : List Char} : IsPart x a → IsPart y b → IsPart z c →
      IsSpelled ⟨x, y, z⟩ (a ++ '.' :: (b ++ '.' :: c))

/-- A text of a version, perhaps with blanks around it. -/
def IsText (v : Version) (s : String) : Prop :=
  ∃ before body after, s.toList = before ++ body ++ after ∧ v.IsSpelled body ∧
    (∀ c ∈ before, isBlank c = true) ∧ ∀ c ∈ after, isBlank c = true

variable {x : UInt32} {cs : List Char} {v : Version}

/-! ## Parts -/

/-- The characters of a number are neither blanks nor points. -/
theorem IsPart.of_mem (h : IsPart x cs) {c : Char} (mem : c ∈ cs) :
    isBlank c = false ∧ c ≠ '.' := by
  obtain ⟨ds, shape, -, digit, -⟩ := h
  have ofDigit (inside : c ∈ ds) : isBlank c = false ∧ c ≠ '.' := by
    refine ⟨not_isBlank_of_isDigit (digit c inside), ?_⟩
    rintro rfl
    cases digit _ inside
  rcases shape with rfl | rfl
  · exact ofDigit mem
  · rcases List.mem_cons.mp mem with rfl | inside
    · decide
    · exact ofDigit inside

/-- A number has at least one digit. -/
theorem IsPart.ne_nil (h : IsPart x cs) : cs ≠ [] := by
  obtain ⟨ds, rfl | rfl, nonempty, -⟩ := h
  · exact nonempty
  · exact List.cons_ne_nil _ _

/-- A number is read from its digits, perhaps after a plus sign, and from nothing else. -/
theorem unsigned?_eq_some_iff {n : Nat} : unsigned? cs = some n ↔
    ∃ ds, (cs = ds ∨ cs = '+' :: ds) ∧ ds ≠ [] ∧ (∀ c ∈ ds, c.isDigit = true) ∧
      ofDigits ds = n := by
  have read (ds : List Char) : (if ds ≠ [] ∧ ds.all Char.isDigit = true then some (ofDigits ds)
      else none) = some n ↔ ds ≠ [] ∧ (∀ c ∈ ds, c.isDigit = true) ∧ ofDigits ds = n := by
    rw [Option.ite_none_right_eq_some, Option.some.injEq, List.all_eq_true, and_assoc]
  by_cases signed : ∃ rest, cs = '+' :: rest
  · obtain ⟨rest, rfl⟩ := signed
    rw [unsigned?, read]
    constructor
    · intro h
      exact ⟨rest, .inr rfl, h⟩
    · rintro ⟨ds, rfl | same, nonempty, digit, value⟩
      · -- A plus sign is no digit.
        cases digit '+' List.mem_cons_self
      · cases same
        exact ⟨nonempty, digit, value⟩
  · have unsigned : ∀ rest, cs = '+' :: rest → False := not_exists.mp signed
    rw [unsigned?.eq_2 cs unsigned, read]
    constructor
    · intro h
      exact ⟨cs, .inl rfl, h⟩
    · rintro ⟨ds, rfl | same, h⟩
      · exact h
      · exact absurd same (unsigned ds)

/-- A part is read exactly if it is a number within the range of parts. -/
theorem part?_eq_some_iff : part? cs = some x ↔ IsPart x cs := by
  rw [part?, Option.map_eq_some_iff, IsPart, ← unsigned?_eq_some_iff]
  constructor
  · rintro ⟨n, read, rfl⟩
    obtain ⟨read, small⟩ := Option.filter_eq_some_iff.mp read
    rw [read, UInt32.toNat_ofNat_of_lt' (of_decide_eq_true small)]
  · intro read
    refine ⟨x.toNat, Option.filter_eq_some_iff.mpr ⟨read, ?_⟩, UInt32.ofNat_toNat⟩
    simpa using x.toNat_lt

/-! ## Versions -/

namespace IsSpelled

/-- A version has at least one number. -/
theorem ne_nil (h : v.IsSpelled cs) : cs ≠ [] := by
  cases h with
  | one first => exact first.ne_nil
  | two first => exact List.append_ne_nil_of_left_ne_nil first.ne_nil _
  | three first => exact List.append_ne_nil_of_left_ne_nil first.ne_nil _

/-- There are no blanks inside of a version, as its characters are those of numbers and points. -/
theorem not_isBlank (h : v.IsSpelled cs) : ∀ c ∈ cs, isBlank c = false := by
  have point : isBlank '.' = false := by decide
  intro c mem
  cases h with
  | one first => exact (first.of_mem mem).1
  | two first second =>
      rw [List.mem_append, List.mem_cons] at mem
      rcases mem with mem | rfl | mem
      · exact (first.of_mem mem).1
      · exact point
      · exact (second.of_mem mem).1
  | three first second third =>
      rw [List.mem_append, List.mem_cons, List.mem_append, List.mem_cons] at mem
      rcases mem with mem | rfl | mem | rfl | mem
      · exact (first.of_mem mem).1
      · exact point
      · exact (second.of_mem mem).1
      · exact point
      · exact (third.of_mem mem).1

/-- Blanks around a version are taken away, and nothing else is. -/
theorem trimBlanks_eq {before after : List Char} (h : v.IsSpelled cs)
    (blank : ∀ c ∈ before, isBlank c = true) (blank' : ∀ c ∈ after, isBlank c = true) :
    trimBlanks (before ++ cs ++ after) = cs := by
  apply trimBlanks_append blank blank' h.ne_nil
  · intro c front
    exact h.not_isBlank c (List.mem_of_mem_head? front)
  · intro c back
    exact h.not_isBlank c (List.mem_reverse.mp (List.mem_of_mem_head? back))

end IsSpelled

/-- A text is not divided inside of a number. -/
theorem IsPart.not_mem_point (h : IsPart x cs) : '.' ∉ cs :=
  fun mem => (h.of_mem mem).2 rfl

/-- A text is read as the version that its characters spell, apart from blanks around them. -/
theorem parse?_eq_some_iff {s : String} :
    parse? s = some v ↔ v.IsSpelled (trimBlanks s.toList) := by
  constructor
  · intro read
    have whole := intercalate_splitAt '.' (trimBlanks s.toList)
    rw [parse?] at read
    rcases split : splitAt '.' (trimBlanks s.toList) with _ | ⟨a, _ | ⟨b, _ | ⟨c, _ | ⟨d, rest⟩⟩⟩⟩
    all_goals rw [split] at read whole
    · cases read
    · obtain ⟨x, first, ⟨⟩⟩ := Option.bind_eq_some_iff.mp read
      rw [← whole, List.intercalate_singleton]
      exact .one (part?_eq_some_iff.mp first)
    · obtain ⟨x, first, read⟩ := Option.bind_eq_some_iff.mp read
      obtain ⟨y, second, ⟨⟩⟩ := Option.bind_eq_some_iff.mp read
      rw [← whole, List.intercalate_cons_cons, List.intercalate_singleton, List.append_assoc]
      exact .two (part?_eq_some_iff.mp first) (part?_eq_some_iff.mp second)
    · obtain ⟨x, first, read⟩ := Option.bind_eq_some_iff.mp read
      obtain ⟨y, second, read⟩ := Option.bind_eq_some_iff.mp read
      obtain ⟨z, third, ⟨⟩⟩ := Option.bind_eq_some_iff.mp read
      rw [← whole, List.intercalate_cons_cons, List.intercalate_cons_cons,
        List.intercalate_singleton, List.append_assoc, List.append_assoc]
      exact .three (part?_eq_some_iff.mp first) (part?_eq_some_iff.mp second)
        (part?_eq_some_iff.mp third)
    · cases read
  · intro spelled
    rw [parse?]
    generalize trimBlanks s.toList = body at spelled
    cases spelled with
    | one first =>
        rw [splitAt_of_not_mem first.not_mem_point]
        show (part? _).bind _ = _
        rw [part?_eq_some_iff.mpr first]
        rfl
    | two first second =>
        rw [splitAt_append_cons first.not_mem_point, splitAt_of_not_mem second.not_mem_point]
        show (part? _).bind _ = _
        rw [part?_eq_some_iff.mpr first, part?_eq_some_iff.mpr second]
        rfl
    | three first second third =>
        rw [splitAt_append_cons first.not_mem_point, splitAt_append_cons second.not_mem_point,
          splitAt_of_not_mem third.not_mem_point]
        show (part? _).bind _ = _
        rw [part?_eq_some_iff.mpr first, part?_eq_some_iff.mpr second, part?_eq_some_iff.mpr third]
        rfl

/-- The blanks around a version are those that are trimmed, since it has none of its own at its
ends. -/
theorem isText_iff {s : String} : v.IsText s ↔ v.IsSpelled (trimBlanks s.toList) := by
  constructor
  · rintro ⟨before, body, after, shape, spelled, blank, blank'⟩
    rwa [shape, spelled.trimBlanks_eq blank blank']
  · intro spelled
    obtain ⟨before, after, shape, blank, blank'⟩ := exists_trimBlanks s.toList
    exact ⟨before, _, after, shape, spelled, blank, blank'⟩

/-- A number is written without a sign and without zeros in front. -/
theorem isPart_digits (x : UInt32) : IsPart x (digits x.toNat) :=
  ⟨_, .inl rfl, Nat.toDigits_ne_nil, fun _ => isDigit_of_mem_digits, ofDigits_digits _⟩

/-- The text of a version spells it with all three parts. -/
theorem isSpelled_text (v : Version) : v.IsSpelled v.text.toList := by
  have shape : v.text.toList = digits v.major.toNat ++ '.' ::
      (digits v.minor.toNat ++ '.' :: digits v.patch.toNat) := by
    simp [text, natText]
  rw [shape]
  exact .three (isPart_digits _) (isPart_digits _) (isPart_digits _)

/-- Reading accepts the texts of versions. -/
theorem parse_eq_ok_iff {s : String} : parse s = .ok v ↔ v.IsText s := by
  rw [isText_iff, ← parse?_eq_some_iff, parse]
  cases parse? s <;> simp

/-- Any other text is given back in the error. -/
theorem parse_eq_error_iff {s : String} {e : Error} :
    parse s = .error e ↔ e = .invalidVersion s ∧ ∀ v : Version, ¬ v.IsText s := by
  simp only [← parse_eq_ok_iff]
  rw [parse]
  cases parse? s with
  | none => simp [eq_comm]
  | some v => simp

/-- Reading accepts exactly the texts of versions, and gives the version that is spelled. Every
other text is refused with an error that carries it as it was given. So the text of a version is
read back, also with blanks around it. -/
theorem parse_iff_isText :
    (∀ (s : String) (v : Version), parse s = .ok v ↔ v.IsText s) ∧
    (∀ (s : String) (e : Error), parse s = .error e ↔
      e = .invalidVersion s ∧ ∀ v : Version, ¬ v.IsText s) ∧
    ∀ (v : Version) (before after : String), (∀ c ∈ before.toList, isBlank c = true) →
      (∀ c ∈ after.toList, isBlank c = true) → parse (before ++ v.text ++ after) = .ok v := by
  refine ⟨fun s v => parse_eq_ok_iff, fun s e => parse_eq_error_iff, ?_⟩
  intro v before after blank blank'
  rw [parse_eq_ok_iff]
  refine ⟨before.toList, v.text.toList, after.toList, ?_, v.isSpelled_text, blank, blank'⟩
  rw [String.toList_append, String.toList_append]

/-- Plus signs, zeros in front, missing parts and blanks of any kind are read, and the greatest part
of all is read back. -/
theorem parse_iff_isText_of_signed_parts :
    parse " +08.007\t" = .ok ⟨8, 7, 0⟩ ∧
      parse ("\u3000" ++ text ⟨4294967295, 0, 0⟩ ++ "\n") = .ok ⟨4294967295, 0, 0⟩ := by
  obtain ⟨accepted, -, readBack⟩ := parse_iff_isText
  constructor
  · apply (accepted _ _).mpr
    refine ⟨[' '], "+08.007".toList, ['\t'], by decide, ?_, List.all_eq_true.mp rfl,
      List.all_eq_true.mp rfl⟩
    exact .two (a := ['+', '0', '8']) (b := ['0', '0', '7'])
      ⟨['0', '8'], .inr rfl, by decide, List.all_eq_true.mp rfl, rfl⟩
      ⟨['0', '0', '7'], .inl rfl, by decide, List.all_eq_true.mp rfl, rfl⟩
  · exact readBack _ _ _ (List.all_eq_true.mp (by decide)) (List.all_eq_true.mp (by decide))

end Dialect.Version

end SqlLowering
