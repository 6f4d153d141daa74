import Mathlib.Data.List.Forall2
import SqlLowering.Json.Reader
import SqlLowering.Json.Writer
import SqlLowering.Proofs.ReadBack

/-!
# JSON texts read back

A text that is written for a value is read as that value, on one line and over several lines. The
proof has two halves. The text is a layout of the tokens of the value: the tokens stand in it in
their order, with blanks in between, and a number is followed by something that does not continue
it. And the reader that takes these tokens one by one goes through a value from where it begins to
where it is complete, whatever arrays and objects are open around it.

Numbers are integers here, which is all that is written for expressions without binary numbers.

Main statements: `read?_compact` and `read?_pretty`.
-/

namespace SqlLowering.Json

open Text

/-- A value whose numbers are integers and in which nothing is unreadable. -/
inductive Plain : Json → Prop
  | null : Plain .null
  | bool (b : Bool) : Plain (.bool b)
  | int (i : Int) : Plain (.int i)
  | string (s : String) : Plain (.string s)
  | array {items : List Json} (each : ∀ j ∈ items, Plain j) : Plain (.array items)
  | object {members : List (String × Json)} (each : ∀ m ∈ members, Plain m.2) :
      Plain (.object members)

/-! ## Tokens -/

namespace Token

variable {c : Char} {cs rest : List Char}

/-- A token whose number is an integer, if it is one. -/
inductive Plain : Token → Prop
  | openBracket : Plain .openBracket
  | closeBracket : Plain .closeBracket
  | openBrace : Plain .openBrace
  | closeBrace : Plain .closeBrace
  | comma : Plain .comma
  | colon : Plain .colon
  | null : Plain .null
  | bool (b : Bool) : Plain (.bool b)
  | int (i : Int) : Plain (.number (.ofInt i))
  | string (s : String) : Plain (.string s)

/-- Nothing at the front continues a number. -/
def Ends (cs : List Char) : Prop :=
  ∀ c ∈ cs.head?, c.isDigit = false ∧ c ∉ ['.', 'e', 'E']

theorem Ends.nil : Ends [] := by
  intro c mem
  cases mem

theorem Ends.cons (h : c.isDigit = false ∧ c ∉ ['.', 'e', 'E']) : Ends (c :: cs) := by
  intro d mem
  cases mem
  exact h

/-- Only the first character decides, and an empty front leaves this to what follows. -/
theorem Ends.append (front : Ends cs) (back : Ends rest) : Ends (cs ++ rest) := by
  cases cs with
  | nil => exact back
  | cons c cs => exact front

theorem Ends.noDigit (ends : Ends rest) : NoDigit rest := fun c mem => (ends c mem).1

/-- A hexadecimal digit is read back. -/
theorem hexValue?_hexDigit {d : Nat} (h : d < 16) : hexValue? (hexDigit d) = some d := by
  revert d
  decide

/-- A character is escaped by a letter, by its number if it is another control character, or not at
all. -/
theorem escapeChar_cases (c : Char) :
    (∃ e, escaped? e = some c ∧ e ≠ 'u' ∧ escapeChar c = ['\\', e]) ∨
    (c.toNat < 0x20 ∧ escapeChar c =
      ['\\', 'u', '0', '0', hexDigit (c.toNat / 16), hexDigit (c.toNat % 16)]) ∨
    (¬(c.toNat < 0x20 ∨ c = '\\') ∧ c ≠ '"' ∧ escapeChar c = [c]) := by
  unfold escapeChar
  split_ifs with quote backslash back feed line carriage tab control
  · exact .inl ⟨'"', by rw [quote]; rfl, by decide, rfl⟩
  · exact .inl ⟨'\\', by rw [backslash]; rfl, by decide, rfl⟩
  · exact .inl ⟨'b', by rw [back]; rfl, by decide, rfl⟩
  · exact .inl ⟨'f', by rw [feed]; rfl, by decide, rfl⟩
  · exact .inl ⟨'n', by rw [line]; rfl, by decide, rfl⟩
  · exact .inl ⟨'r', by rw [carriage]; rfl, by decide, rfl⟩
  · exact .inl ⟨'t', by rw [tab]; rfl, by decide, rfl⟩
  · exact .inr (.inl ⟨control, rfl⟩)
  · exact .inr (.inr ⟨by simp [control, backslash], quote, rfl⟩)

/-- An escaped character is one piece, which stands for it. -/
theorem pieces_escapeChar (c : Char) (rest : List Char) :
    ∃ p, pieces (escapeChar c ++ rest) = (pieces rest).map (fun r => (p :: r.1, r.2)) ∧
      ∀ ps, assemble (p :: ps) = (assemble ps).map (c :: ·) := by
  obtain ⟨e, letter, other, shape⟩ | ⟨control, shape⟩ | ⟨raw, quote, shape⟩ := escapeChar_cases c
  -- a letter after the backslash; `u` alone would begin a number
  · refine ⟨.char c, ?_, fun _ => rfl⟩
    rw [shape, List.cons_append, List.cons_append, List.nil_append, pieces, letter]
    · cases pieces rest <;> rfl
    · exact fun _ _ _ _ _ unit _ => other unit
  -- a number of four digits; control characters are below the halves of pairs
  · refine ⟨.unit c.toNat, ?_, fun ps => ?_⟩
    · have high : hexValue? (hexDigit (c.toNat / 16)) = some (c.toNat / 16) :=
        hexValue?_hexDigit (by omega)
      have low : hexValue? (hexDigit (c.toNat % 16)) = some (c.toNat % 16) :=
        hexValue?_hexDigit (by omega)
      have unit : hexUnit? '0' '0' (hexDigit (c.toNat / 16)) (hexDigit (c.toNat % 16)) =
          some (c.toNat / 16 * 16 + c.toNat % 16) := by
        rw [hexUnit?, high, low]
        simp [hexValue?]
      rw [shape]
      simp only [List.cons_append, List.nil_append, pieces, unit]
      rw [Nat.div_add_mod']
      cases pieces rest <;> rfl
    · rw [assemble.eq_def (.unit c.toNat :: ps)]
      simp only
      rw [if_pos (by omega), Char.ofNat_toNat]
  · refine ⟨.char c, ?_, fun _ => rfl⟩
    have plain : c ≠ '\\' := fun h => raw (.inr h)
    rw [shape, List.cons_append, List.nil_append, pieces, if_neg raw]
    · cases pieces rest <;> rfl
    · exact quote
    · exact fun _ _ _ _ _ h _ => plain h
    · exact fun _ _ h _ => plain h

/-- A quoted string is read to its closing quote. -/
theorem pieces_quoted (cs rest : List Char) :
    ∃ ps, pieces (cs.flatMap escapeChar ++ '"' :: rest) = some (ps, rest) ∧
      assemble ps = some cs := by
  induction cs with
  | nil => exact ⟨[], by simp [pieces], rfl⟩
  | cons c cs ih =>
      obtain ⟨ps, read, whole⟩ := ih
      obtain ⟨p, first, stands⟩ := pieces_escapeChar c (cs.flatMap escapeChar ++ '"' :: rest)
      refine ⟨p :: ps, ?_, by rw [stands, whole]; rfl⟩
      rw [List.flatMap_cons, List.append_assoc, first, read]
      rfl

/-- The digits of a number are read to their end. A zero is the only number that begins with one, so
the rule against leading zeros does not apply. -/
theorem readWhole_digits (n : Nat) (ends : Ends rest) :
    readWhole (digits n ++ rest) = some (digits n, rest) := by
  by_cases zero : n = 0
  · subst zero
    cases rest with
    | nil => rfl
    | cons c cs =>
        have other : c.isDigit = false := (ends c rfl).1
        simp [readWhole, digits, other]
  · have run : readAllDigits (digits n ++ rest) = some (digits n, rest) :=
      readDigits_append (fun c => isDigit_of_mem_digits) Nat.toDigits_ne_nil (by simp) ends.noDigit
    obtain ⟨c, cs, shape, -⟩ := exists_digits_eq_cons n
    have first : c ≠ '0' := by
      rintro rfl
      exact zero (eq_zero_of_digits n shape)
    rw [shape] at run ⊢
    unfold readWhole
    split
    case h_1 same => exact absurd (List.cons.inj same).1 first
    case h_2 => exact run

/-- A numeral without a fraction and without an exponent is its digits, if what follows begins
neither. -/
theorem readNumeral_digits (negative : Bool) (n : Nat) (ends : Ends rest) :
    readNumeral negative (digits n ++ rest) = some ({ negative, whole := digits n }, rest) := by
  have fraction : readFraction rest = some ([], rest) := by
    unfold readFraction
    split
    case h_1 => exact absurd (ends '.' rfl).2 (by decide)
    case h_2 => rfl
  have exponent : readExponent rest = some (none, rest) := by
    cases rest with
    | nil => rfl
    | cons c cs =>
        have other := (ends c rfl).2
        simp only [List.mem_cons, List.not_mem_nil, or_false, not_or] at other
        simp [readExponent, other]
  simp [readNumeral, readWhole_digits n ends, fraction, exponent]

/-- The token is a number. -/
def isNumber : Token → Bool
  | .number _ => true
  | _ => false

theorem chars_int (i : Int) : (Token.number (.ofInt i)).chars =
    (if i < 0 then ['-'] else []) ++ digits i.natAbs := by
  simp [chars, Numeral.chars, Numeral.ofInt]

/-- A digit begins no other token. -/
theorem read_digit (h : c.isDigit = true) :
    read (c :: cs) = (readNumeral false (c :: cs)).map fun r => (.number r.1, r.2) := by
  unfold read
  split
  case h_12 => rfl
  all_goals
    rename_i same
    obtain ⟨rfl, -⟩ := List.cons.inj same
    exact absurd h (by decide)

/-- A token is read back if what follows does not continue it. -/
theorem read_chars {t : Token} (plain : t.Plain) (ends : t.isNumber = true → Ends rest) :
    read (t.chars ++ rest) = some (t, rest) := by
  cases plain with
  | bool b => cases b <;> rfl
  | string s =>
      obtain ⟨ps, read, whole⟩ := pieces_quoted s.toList rest
      have back : ofPieces ps = .string s := by
        rw [ofPieces, whole]
        simp
      simp [chars, quoted, Token.read, read, back]
  | int i =>
      have digits (negative : Bool) := readNumeral_digits negative i.natAbs (ends rfl)
      rw [chars_int]
      by_cases negative : i < 0
      · simp [negative, Token.read, digits, Numeral.ofInt]
      · obtain ⟨c, cs, shape, digit⟩ := exists_digits_eq_cons i.natAbs
        have number := digits false
        rw [shape, List.cons_append] at number
        simp [negative, read_digit digit, number, Numeral.ofInt, shape]
  | _ => rfl

/-- A digit is no blank, so a number is not skipped. -/
theorem not_isBlank_of_isDigit (h : c.isDigit = true) : isBlank c = false := by
  by_contra blank
  simp only [isBlank, Bool.or_eq_true, beq_iff_eq, Bool.not_eq_false] at blank
  rcases blank with ((rfl | rfl) | rfl) | rfl <;> exact absurd h (by decide)

/-- A token has a first character, which is not skipped as a blank. -/
theorem exists_chars_eq_cons {t : Token} (plain : t.Plain) :
    ∃ c cs, t.chars = c :: cs ∧ isBlank c = false := by
  cases plain with
  | bool b => cases b <;> exact ⟨_, _, rfl, rfl⟩
  | int i =>
      rw [chars_int]
      by_cases negative : i < 0
      · exact ⟨'-', digits i.natAbs, by simp [negative], rfl⟩
      · obtain ⟨c, cs, shape, digit⟩ := exists_digits_eq_cons i.natAbs
        exact ⟨c, cs, by simp [negative, shape], not_isBlank_of_isDigit digit⟩
  | _ => exact ⟨_, _, rfl, rfl⟩

/-! ## Layouts -/

/-- The characters are the tokens in their order, with blanks in between. -/
inductive Layout : List Token → List Char → Prop
  | done : Layout [] []
  | blank {ts : List Token} {c : Char} {cs : List Char} (h : isBlank c = true)
      (rest : Layout ts cs) : Layout ts (c :: cs)
  | token {t : Token} {ts : List Token} {cs : List Char} (plain : t.Plain)
      (ends : t.isNumber = true → Ends cs) (rest : Layout ts cs) : Layout (t :: ts) (t.chars ++ cs)

/-- A blank takes no step, as blanks are skipped together before a token. -/
theorem scanWithin_blank {steps : Nat} (h : isBlank c = true) :
    scanWithin (steps + 1) (c :: cs) = scanWithin (steps + 1) cs := by
  rw [scanWithin, scanWithin, List.dropWhile_cons_of_pos h]

/-- Scanning finds the tokens of a layout. -/
theorem Layout.scanWithin {ts : List Token} (layout : Layout ts cs) {steps : Nat}
    (enough : cs.length ≤ steps) : scanWithin steps cs = some ts := by
  induction layout generalizing steps with
  | done => cases steps <;> rfl
  | @blank ts c cs h rest ih =>
      cases steps with
      | zero => cases enough
      | succ steps =>
          rw [scanWithin_blank h]
          exact ih (Nat.le_trans (Nat.le_succ _) enough)
  | @token t ts cs plain ends rest ih =>
      obtain ⟨c, front, shape, solid⟩ := exists_chars_eq_cons plain
      have read := read_chars plain ends
      -- a token is at least one character, so a step for each character is enough
      rw [shape, List.cons_append] at read enough ⊢
      cases steps with
      | zero => cases enough
      | succ steps =>
          have tail : Token.scanWithin steps cs = some ts := by
            apply ih
            rw [List.length_cons, List.length_append] at enough
            omega
          rw [Token.scanWithin, List.dropWhile_cons_of_neg (by simp [solid])]
          simp [read, tail]

/-- The characters are the tokens in front of every layout that does not continue a number. -/
def Spells (ts : List Token) (cs : List Char) : Prop :=
  ∀ ⦃ts' : List Token⦄ ⦃cs' : List Char⦄, Ends cs' → Layout ts' cs' → Layout (ts ++ ts') (cs ++ cs')

namespace Spells

variable {t : Token} {ts us : List Token} {xs ys : List Char}

theorem token (plain : t.Plain) : Spells [t] t.chars :=
  fun _ _ ends rest => .token plain (fun _ => ends) rest

/-- Two texts can be joined if the second one does not continue a number at the end of the first. -/
theorem append (front : Spells ts xs) (back : Spells us ys) (ends : Ends ys) :
    Spells (ts ++ us) (xs ++ ys) := by
  intro ts' cs' after rest
  have joined := front (ends.append after) (back after rest)
  rwa [← List.append_assoc, ← List.append_assoc] at joined

/-- What follows a token that is not a number is free. -/
theorem cons (plain : t.Plain) (other : t.isNumber = false) (back : Spells ts xs) :
    Spells (t :: ts) (t.chars ++ xs) := by
  intro ts' cs' after rest
  rw [List.append_assoc]
  exact .token plain (by simp [other]) (back after rest)

/-- Blanks in front add no token. -/
theorem blanks (blank : ∀ c ∈ xs, isBlank c = true) (back : Spells ts ys) :
    Spells ts (xs ++ ys) := by
  intro ts' cs' after rest
  induction xs with
  | nil => exact back after rest
  | cons c xs ih =>
      obtain ⟨first, others⟩ := List.forall_mem_cons.mp blank
      exact .blank first (ih others)

end Spells

/-- Parts between two tokens, with commas in between. -/
def enclosed (first last : Token) : List (List Token) → List Token
  | [] => [first, last]
  | ts :: tss => first :: ts ++ tss.flatMap (.comma :: ·) ++ [last]

/-- The characters of parts between two tokens, with blanks before each part and after the last. -/
def enclosedChars (first last : Token) (inner outer : List Char) : List (List Char) → List Char
  | [] => first.chars ++ last.chars
  | xs :: xss =>
    first.chars ++ inner ++ xs ++ xss.flatMap (fun ys => ',' :: inner ++ ys) ++ outer ++ last.chars

/-- On one line the parts have no blanks around them. -/
theorem flatMap_chars_enclosed (first last : Token) (tss : List (List Token)) :
    (enclosed first last tss).flatMap chars =
      enclosedChars first last [] [] (tss.map (·.flatMap chars)) := by
  cases tss with
  | nil => simp [enclosed, enclosedChars]
  | cons ts tss =>
      simp [enclosed, enclosedChars, List.flatMap_assoc, List.flatMap_map, chars]

section Enclosed

variable {first last : Token} {inner outer : List Char} {tss : List (List Token)}
  {xss : List (List Char)}

/-- A blank does not continue a number. -/
theorem Ends.of_blanks (blank : ∀ c ∈ cs, isBlank c = true) : Ends cs := by
  intro c mem
  have first := blank c (List.mem_of_mem_head? mem)
  simp only [isBlank, Bool.or_eq_true, beq_iff_eq] at first
  rcases first with ((rfl | rfl) | rfl) | rfl <;> decide

/-- The parts after the first one, and the end. -/
theorem spells_enclosed_tail (closes : last.Plain) (ends : Ends last.chars)
    (inside : ∀ c ∈ inner, isBlank c = true) (outside : ∀ c ∈ outer, isBlank c = true)
    (parts : List.Forall₂ Spells tss xss) :
    Spells (tss.flatMap (.comma :: ·) ++ [last])
        (xss.flatMap (fun ys => ',' :: inner ++ ys) ++ (outer ++ last.chars)) ∧
      Ends (xss.flatMap (fun ys => ',' :: inner ++ ys) ++ (outer ++ last.chars)) := by
  induction parts with
  | nil =>
      show Spells [last] (outer ++ last.chars) ∧ Ends (outer ++ last.chars)
      exact ⟨.blanks outside (.token closes), (Ends.of_blanks outside).append ends⟩
  | cons part parts ih =>
      obtain ⟨tail, stops⟩ := ih
      refine ⟨?_, ?_⟩
      · have more := Spells.cons .comma rfl (.blanks inside (part.append tail stops))
        simpa [chars] using more
      · rw [List.flatMap_cons]
        exact .cons (by decide)

/-- Parts between two tokens are spelled if each part is: after each of them comes a comma, a blank
or the end. -/
theorem Spells.enclosed (opens : first.Plain) (other : first.isNumber = false)
    (closes : last.Plain) (ends : Ends last.chars) (inside : ∀ c ∈ inner, isBlank c = true)
    (outside : ∀ c ∈ outer, isBlank c = true) (parts : List.Forall₂ Spells tss xss) :
    Spells (enclosed first last tss) (enclosedChars first last inner outer xss) := by
  cases parts with
  | nil => exact .cons opens other (.token closes)
  | cons part parts =>
      obtain ⟨tail, stops⟩ := spells_enclosed_tail closes ends inside outside parts
      have whole := Spells.cons opens other (.blanks inside (part.append tail stops))
      simpa [Token.enclosed, enclosedChars] using whole

end Enclosed

end Token

/-! ## The two texts of a value -/

/-- The tokens of an array are those of its items between brackets. -/
theorem tokens_array (items : List Json) :
    (array items).tokens = Token.enclosed .openBracket .closeBracket (items.map tokens) := by
  have more (items : List Json) :
      tokensOfItems items = (items.map tokens).flatMap (.comma :: ·) := by
    induction items with
    | nil => rfl
    | cons j items ih => simp [tokensOfItems, ih]
  cases items with
  | nil => rfl
  | cons j items => simp [tokens, Token.enclosed, more]

/-- The tokens of a member. -/
def tokensOfMember (m : String × Json) : List Token :=
  .string m.1 :: .colon :: m.2.tokens

/-- The tokens of an object are those of its members between braces. -/
theorem tokens_object (members : List (String × Json)) :
    (object members).tokens =
      Token.enclosed .openBrace .closeBrace (members.map tokensOfMember) := by
  have more (members : List (String × Json)) :
      tokensOfMembers members = (members.map tokensOfMember).flatMap (.comma :: ·) := by
    induction members with
    | nil => rfl
    | cons m members ih => simp [tokensOfMembers, tokensOfMember, ih]
  cases members with
  | nil => rfl
  | cons m members => simp [tokens, Token.enclosed, tokensOfMember, more]

/-- Over several lines each item is on a line of its own, further in than the brackets. -/
theorem prettyChars_array (level : Nat) (items : List Json) :
    prettyChars level (.array items) = Token.enclosedChars .openBracket .closeBracket
      (lineBreak (level + 1)) (lineBreak level) (items.map (prettyChars (level + 1))) := by
  have more (items : List Json) : prettyItems (level + 1) items =
      (items.map (prettyChars (level + 1))).flatMap
        fun ys => ',' :: lineBreak (level + 1) ++ ys := by
    induction items with
    | nil => rfl
    | cons j items ih => simp [prettyItems, ih]
  cases items with
  | nil => rfl
  | cons j items => simp [prettyChars, Token.enclosedChars, Token.chars, more]

/-- The characters of a member over several lines. -/
def prettyMember (level : Nat) (m : String × Json) : List Char :=
  quoted m.1 ++ ':' :: [' '] ++ prettyChars level m.2

/-- The same for the members of an object. -/
theorem prettyChars_object (level : Nat) (members : List (String × Json)) :
    prettyChars level (.object members) = Token.enclosedChars .openBrace .closeBrace
      (lineBreak (level + 1)) (lineBreak level) (members.map (prettyMember (level + 1))) := by
  have more (members : List (String × Json)) : prettyMembers (level + 1) members =
      (members.map (prettyMember (level + 1))).flatMap
        fun ys => ',' :: lineBreak (level + 1) ++ ys := by
    induction members with
    | nil => rfl
    | cons m members ih => simp [prettyMembers, prettyMember, ih]
  cases members with
  | nil => rfl
  | cons m members => simp [prettyChars, prettyMember, Token.enclosedChars, Token.chars, more]

/-- A new line with its indentation is blank. -/
theorem isBlank_of_mem_lineBreak {c : Char} {level : Nat} (mem : c ∈ lineBreak level) :
    Token.isBlank c = true := by
  rw [lineBreak, List.mem_cons] at mem
  rcases mem with rfl | mem
  · rfl
  · rw [List.eq_of_mem_replicate mem]
    rfl

section Spelling

variable (spell : Json → List Char) {inner outer gap : List Char}
  (inside : ∀ c ∈ inner, Token.isBlank c = true) (outside : ∀ c ∈ outer, Token.isBlank c = true)

include inside outside

/-- An array is spelled with any blanks around its items, if each item is spelled. -/
theorem spells_array {items : List Json}
    (each : ∀ j ∈ items, Token.Spells j.tokens (spell j)) :
    Token.Spells (array items).tokens
      (Token.enclosedChars .openBracket .closeBracket inner outer (items.map spell)) := by
  rw [tokens_array]
  refine .enclosed .openBracket rfl .closeBracket (.cons (by decide)) inside outside ?_
  rw [List.forall₂_map_left_iff, List.forall₂_map_right_iff, List.forall₂_same]
  exact each

/-- An object is spelled with any blanks around its members and before their values, if each value
is spelled. -/
theorem spells_object {members : List (String × Json)} (apart : ∀ c ∈ gap, Token.isBlank c = true)
    (each : ∀ m ∈ members, Token.Spells m.2.tokens (spell m.2)) :
    Token.Spells (object members).tokens
      (Token.enclosedChars .openBrace .closeBrace inner outer
        (members.map fun m => quoted m.1 ++ ':' :: gap ++ spell m.2)) := by
  rw [tokens_object]
  refine .enclosed .openBrace rfl .closeBrace (.cons (by decide)) inside outside ?_
  rw [List.forall₂_map_left_iff, List.forall₂_map_right_iff, List.forall₂_same]
  intro m mem
  have member := Token.Spells.cons (.string m.1) rfl (.cons .colon rfl (.blanks apart (each m mem)))
  simpa [tokensOfMember, Token.chars] using member

end Spelling

/-- The text on one line spells the tokens. -/
theorem Plain.spells_compact {j : Json} (plain : Plain j) :
    Token.Spells j.tokens (j.tokens.flatMap Token.chars) := by
  have single {t : Token} (h : t.Plain) : Token.Spells [t] ([t].flatMap Token.chars) := by
    rw [List.flatMap_singleton]
    exact .token h
  have noBlanks : ∀ c ∈ [], Token.isBlank c = true := by simp
  induction plain with
  | null => exact single .null
  | bool b => exact single (.bool b)
  | int i => exact single (.int i)
  | string s => exact single (.string s)
  | @array items each ih =>
      have text : (Json.array items).tokens.flatMap Token.chars =
          Token.enclosedChars .openBracket .closeBracket [] []
            (items.map fun j => j.tokens.flatMap Token.chars) := by
        rw [tokens_array, Token.flatMap_chars_enclosed, List.map_map]
        rfl
      rw [text]
      exact spells_array _ noBlanks noBlanks ih
  | @object members each ih =>
      have text : (Json.object members).tokens.flatMap Token.chars =
          Token.enclosedChars .openBrace .closeBrace [] []
            (members.map fun m => quoted m.1 ++ ':' :: [] ++ m.2.tokens.flatMap Token.chars) := by
        rw [tokens_object, Token.flatMap_chars_enclosed, List.map_map]
        simp [Function.comp_def, tokensOfMember, Token.chars]
      rw [text]
      exact spells_object (fun j => j.tokens.flatMap Token.chars) noBlanks noBlanks noBlanks ih

/-- The text over several lines spells the same tokens. -/
theorem Plain.spells_pretty {j : Json} (plain : Plain j) (level : Nat) :
    Token.Spells j.tokens (j.prettyChars level) := by
  induction plain generalizing level with
  | null => exact .token .null
  | bool b => exact .token (.bool b)
  | int i => exact .token (.int i)
  | string s => exact .token (.string s)
  | array each ih =>
      rw [prettyChars_array]
      exact spells_array _ (fun c => isBlank_of_mem_lineBreak) (fun c => isBlank_of_mem_lineBreak)
        fun j mem => ih j mem (level + 1)
  | object each ih =>
      rw [prettyChars_object]
      exact spells_object _ (fun c => isBlank_of_mem_lineBreak)
        (fun c => isBlank_of_mem_lineBreak) (by decide) fun m mem => ih m mem (level + 1)

/-- A whole text that spells tokens is scanned into them, as its end continues no number. -/
theorem scan_of_spells {ts : List Token} {cs : List Char} (spells : Token.Spells ts cs) :
    Token.scan (String.ofList cs) = some ts := by
  have layout := spells .nil .done
  rw [List.append_nil, List.append_nil] at layout
  rw [Token.scan, String.toList_ofList, String.length_ofList]
  exact layout.scanWithin (Nat.le_refl _)

/-! ## Taking the tokens of a value -/

namespace Reader

/-- A run of the reader over tokens. -/
def run (r : Reader) (ts : List Token) : Option Reader :=
  ts.foldlM step r

theorem run_cons (r : Reader) (t : Token) (ts : List Token) :
    r.run (t :: ts) = (r.step t).bind (run · ts) :=
  rfl

/-- Where a value may begin, its tokens are taken until it is complete. -/
def Takes (j : Json) : Prop :=
  ∀ (stack : List Frame) (rest : List Token),
    (value stack).run (j.tokens ++ rest) = (complete j stack).bind (run · rest)

/-- A value of one token is complete with it. -/
theorem takes_single {t : Token} {j : Json} (shape : j.tokens = [t])
    (starts : ∀ stack, start stack t = complete j stack) : Takes j := by
  intro stack rest
  rw [shape, List.singleton_append, run_cons, step, starts]

/-- The tokens of items, each after a comma, and the end of the array. -/
def itemsTail (items : List Json) (rest : List Token) : List Token :=
  (items.map tokens).flatMap (.comma :: ·) ++ .closeBracket :: rest

theorem itemsTail_cons (j : Json) (items : List Json) (rest : List Token) :
    itemsTail (j :: items) rest = .comma :: (j.tokens ++ itemsTail items rest) := by
  simp [itemsTail]

/-- The items after the first one go into the array, which is then complete. -/
theorem run_itemsTail {items : List Json} (each : ∀ j ∈ items, Takes j) (done : List Json)
    (stack : List Frame) (rest : List Token) :
    (next (.array done :: stack)).run (itemsTail items rest) =
      (complete (.array (done.reverse ++ items)) stack).bind (run · rest) := by
  induction items generalizing done with
  | nil => simp [itemsTail, run_cons, step, closeArray]
  | cons j items ih =>
      obtain ⟨first, others⟩ := List.forall_mem_cons.mp each
      calc (next (.array done :: stack)).run (itemsTail (j :: items) rest)
          = (value (.array done :: stack)).run (j.tokens ++ itemsTail items rest) := by
            rw [itemsTail_cons]
            rfl
        _ = (next (.array (j :: done) :: stack)).run (itemsTail items rest) := first _ _
        _ = (complete (.array (done.reverse ++ j :: items)) stack).bind (run · rest) := by
            rw [ih others, List.reverse_cons, List.append_assoc]
            rfl

/-- A value does not begin with the end of an array. -/
theorem run_firstItem (j : Json) (stack : List Frame) (rest : List Token) :
    (firstItem stack).run (j.tokens ++ rest) = (value stack).run (j.tokens ++ rest) := by
  cases j with
  | array items =>
      rw [tokens_array]
      cases items <;> rfl
  | object members =>
      rw [tokens_object]
      cases members <;> rfl
  | _ => rfl

/-- An array is taken if its items are: each is complete where the array goes on. -/
theorem takes_array {items : List Json} (each : ∀ j ∈ items, Takes j) : Takes (.array items) := by
  intro stack rest
  rw [tokens_array]
  cases items with
  | nil => rfl
  | cons j items =>
      obtain ⟨first, others⟩ := List.forall_mem_cons.mp each
      have shape : Token.enclosed .openBracket .closeBracket ((j :: items).map tokens) ++ rest =
          .openBracket :: (j.tokens ++ itemsTail items rest) := by
        simp [Token.enclosed, itemsTail]
      rw [shape]
      calc (value stack).run (.openBracket :: (j.tokens ++ itemsTail items rest))
          = (firstItem (.array [] :: stack)).run (j.tokens ++ itemsTail items rest) := rfl
        _ = (value (.array [] :: stack)).run (j.tokens ++ itemsTail items rest) :=
            run_firstItem j _ _
        _ = (next (.array [j] :: stack)).run (itemsTail items rest) := first _ _
        _ = (complete (.array (j :: items)) stack).bind (run · rest) :=
            run_itemsTail others [j] stack rest

/-- A member as it is kept in a frame. -/
def kept (m : String × Json) : Option String × Json :=
  (some m.1, m.2)

/-- The members of an object all have their names, so it is readable. -/
theorem objectOf_map_kept (members : List (String × Json)) :
    objectOf (members.map kept) = .object members := by
  have names : (members.map kept).mapM (fun m => m.1.map (·, m.2)) = some members := by
    induction members with
    | nil => rfl
    | cons m members ih =>
        rw [List.map_cons, List.mapM_cons, ih]
        rfl
  rw [objectOf]
  simp [names]

/-- The tokens of members, each after a comma, and the end of the object. -/
def membersTail (members : List (String × Json)) (rest : List Token) : List Token :=
  (members.map tokensOfMember).flatMap (.comma :: ·) ++ .closeBrace :: rest

theorem membersTail_cons (m : String × Json) (members : List (String × Json)) (rest : List Token) :
    membersTail (m :: members) rest =
      .comma :: .string m.1 :: .colon :: (m.2.tokens ++ membersTail members rest) := by
  simp [membersTail, tokensOfMember]

/-- The members after the first one go into the object, which is then complete. -/
theorem run_membersTail {members : List (String × Json)} (each : ∀ m ∈ members, Takes m.2)
    (done : List (String × Json)) (stack : List Frame) (rest : List Token) :
    (next (.object (done.map kept) :: stack)).run (membersTail members rest) =
      (complete (.object (done.reverse ++ members)) stack).bind (run · rest) := by
  induction members generalizing done with
  | nil =>
      simp [membersTail, run_cons, step, closeObject, ← List.map_reverse, objectOf_map_kept]
  | cons m members ih =>
      obtain ⟨first, others⟩ := List.forall_mem_cons.mp each
      calc (next (.object (done.map kept) :: stack)).run (membersTail (m :: members) rest)
          = (value (.member (done.map kept) (some m.1) :: stack)).run
              (m.2.tokens ++ membersTail members rest) := by
            rw [membersTail_cons]
            rfl
        _ = (next (.object ((m :: done).map kept) :: stack)).run (membersTail members rest) :=
            first _ _
        _ = (complete (.object (done.reverse ++ m :: members)) stack).bind (run · rest) := by
            rw [ih others, List.reverse_cons, List.append_assoc]
            rfl

/-- An object is taken if the values of its members are. -/
theorem takes_object {members : List (String × Json)} (each : ∀ m ∈ members, Takes m.2) :
    Takes (.object members) := by
  intro stack rest
  rw [tokens_object]
  cases members with
  | nil => rfl
  | cons m members =>
      obtain ⟨first, others⟩ := List.forall_mem_cons.mp each
      have shape :
          Token.enclosed .openBrace .closeBrace ((m :: members).map tokensOfMember) ++ rest =
            .openBrace :: .string m.1 :: .colon :: (m.2.tokens ++ membersTail members rest) := by
        simp [Token.enclosed, membersTail, tokensOfMember]
      rw [shape]
      calc (value stack).run
              (.openBrace :: .string m.1 :: .colon :: (m.2.tokens ++ membersTail members rest))
          = (value (.member [] (some m.1) :: stack)).run
              (m.2.tokens ++ membersTail members rest) := rfl
        _ = (next (.object ([m].map kept) :: stack)).run (membersTail members rest) := first _ _
        _ = (complete (.object (m :: members)) stack).bind (run · rest) :=
            run_membersTail others [m] stack rest

end Reader

/-- Every value is taken, by induction on what is inside it. -/
theorem Plain.takes {j : Json} (plain : Plain j) : Reader.Takes j := by
  induction plain with
  | null => exact Reader.takes_single rfl fun _ => rfl
  | bool b => exact Reader.takes_single rfl fun _ => rfl
  | int i => exact Reader.takes_single rfl fun _ => rfl
  | string s => exact Reader.takes_single rfl fun _ => rfl
  | array each ih => exact Reader.takes_array ih
  | object each ih => exact Reader.takes_object ih

/-- With nothing open around it, a value is read from its tokens. -/
theorem ofTokens?_tokens {j : Json} (plain : Plain j) : ofTokens? j.tokens = some j := by
  have run := plain.takes [] []
  rw [List.append_nil] at run
  rw [ofTokens?, ← Reader.run, run]
  rfl

/-- A value is read back from its text on one line. -/
theorem read?_compact {j : Json} (plain : Plain j) : read? j.compact = some j := by
  rw [read?, compact, scan_of_spells plain.spells_compact]
  exact ofTokens?_tokens plain

/-- A value is read back from its text over several lines. -/
theorem read?_pretty {j : Json} (plain : Plain j) : read? j.pretty = some j := by
  rw [read?, pretty, scan_of_spells (plain.spells_pretty 0)]
  exact ofTokens?_tokens plain

end SqlLowering.Json
