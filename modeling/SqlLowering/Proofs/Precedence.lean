import SqlLowering.Proofs.Assembly
import SqlLowering.Proofs.Grammar

/-!
# Operators under the precedence of the target

A binary operation and a test for null stand in parentheses as a whole, the signs `-` and `~` bind
tighter than everything else, and a negation is written as `NOT` before its operand in parentheses,
without parentheses around both. The target gives `NOT` less precedence than comparisons and
arithmetic. So a negation that is an operand of such an operation is not read as one: on the left
side `NOT` takes the whole operation as its operand, and on the right side it is a mistake.

Main statements: `OperatorTree.parse?_sql` says which tree the target reads in the text of every
operator tree, and `Expr.parse?_lowerRoot_iff` says when this is the tree that was lowered: exactly
when no negation is an operand of a test for null or of a binary operation other than `AND` and
`OR`.
-/

namespace SqlLowering

open Dialect Fragment Text Grammar

/-- A column name in quotes, after its qualifier if it has one. -/
def ColumnName.fragment (c : ColumnName) : Fragment :=
  match c.qualifier with
  | some q => concat (.ident q) (.ident c.name) "."
  | none => .ident c.name

/-- The operators that bind less than a negation. -/
def BinaryOp.isConnective : BinaryOp → Bool
  | and | or => true
  | _ => false

/-- The operators that stand after their operand. -/
def UnaryOp.testsNull : UnaryOp → Bool
  | isNull | isNotNull => true
  | _ => false

namespace OperatorTree

/-- How an operator tree is lowered. -/
def fragment : OperatorTree → Fragment
  | .column c => c.fragment
  | .number n => .nat n
  | .unary op child => Rule.applyUnary op child.fragment
  | .binary op left right =>
    parenthesize (words [left.fragment, .raw op.token, right.fragment])

/-- The tokens in which an operator tree is written. -/
def tokens : OperatorTree → List Token
  | .column ⟨some q, s⟩ => [.name q, .dot, .name s]
  | .column ⟨none, s⟩ => [.name s]
  | .number n => [.number n]
  | .unary .not child => .not :: .leftParen :: child.tokens ++ [.rightParen]
  | .unary .negate child => .operator .sub :: .leftParen :: child.tokens ++ [.rightParen]
  | .unary .bitNot child => .tilde :: .leftParen :: child.tokens ++ [.rightParen]
  | .unary .isNull child => .leftParen :: child.tokens ++ [.is, .null, .rightParen]
  | .unary .isNotNull child => .leftParen :: child.tokens ++ [.is, .not, .null, .rightParen]
  | .binary op left right =>
    .leftParen :: left.tokens ++ .operator op :: right.tokens ++ [.rightParen]

/-- The root is a negation, the only operation that is written without parentheses around it and
binds less than others. -/
def isNegation : OperatorTree → Bool
  | .unary .not _ => true
  | _ => false

/-- Put an operation around the operand of a negation, or around the whole tree if it is none. -/
def underNegation (around : OperatorTree → OperatorTree) : OperatorTree → OperatorTree
  | .unary .not child => .unary .not (around child)
  | tree => around tree

/-- The tree that the target reads in the text of a tree, if it reads one at all. -/
def readBack : OperatorTree → Option OperatorTree
  | .column c => some (.column c)
  | .number n => some (.number n)
  | .unary op child => do
    let inner ← child.readBack
    if op.testsNull && child.isNegation then
      some (inner.underNegation (.unary op))
    else
      some (.unary op inner)
  | .binary op left right => do
    let before ← left.readBack
    let after ← right.readBack
    if op.isConnective then some (.binary op before after)
    else if right.isNegation then none
    else if left.isNegation then some (before.underNegation (.binary op · after))
    else some (.binary op before after)

/-- No negation is an operand of a test for null or of a binary operation other than `AND` and
`OR`. -/
def negationsApart : OperatorTree → Bool
  | .column _ | .number _ => true
  | .unary op child =>
    child.negationsApart && !(op.testsNull && child.isNegation)
  | .binary op left right =>
    left.negationsApart && right.negationsApart &&
      (op.isConnective || !(left.isNegation || right.isNegation))

end OperatorTree

namespace Fragment

/-- The text of two fragments has the separator between them. -/
theorem sql_concat (f g : Fragment) (separator : String) :
    (concat f g separator).sql = f.sql ++ (separator ++ g.sql) := by
  simp [concat, join, sql, sqlOfParts, sqlAfter]

/-- The parentheses stand around the whole text. -/
theorem sql_parenthesize (f : Fragment) : (parenthesize f).sql = "(" ++ f.sql ++ ")" := by
  simp [parenthesize, sql, sqlOfParts, sqlAfter]

/-- Three words have a space between each two. -/
theorem sql_words (f g h : Fragment) :
    (words [f, g, h]).sql = f.sql ++ " " ++ g.sql ++ " " ++ h.sql := by
  simp [words, join, sql, sqlOfParts, sqlAfter, String.append_assoc]

end Fragment

namespace Grammar

/-- What may follow an operand in a text. -/
def Ends (rest : List Char) : Prop :=
  ∀ c ∈ rest.head?, c = ' ' ∨ c = ')'

/-- A space may follow an operand. -/
theorem ends_space (rest : List Char) : Ends (' ' :: rest) := by
  intro c h
  exact .inl (Option.some.inj h).symm

/-- So may a closing parenthesis. -/
theorem ends_paren (rest : List Char) : Ends (')' :: rest) := by
  intro c h
  exact .inr (Option.some.inj h).symm

/-- What follows an operand does not go on with a quoted name. -/
theorem Ends.head?_ne {rest : List Char} (h : Ends rest) : rest.head? ≠ some backtick := by
  intro same
  rcases h backtick same with eq | eq
  · exact absurd eq (by decide)
  · exact absurd eq (by decide)

/-- A run of characters is read to its end and no further. -/
theorem span_append {p : Char → Bool} {cs rest : List Char} (run : cs.all p = true)
    (stop : ∀ c ∈ rest.head?, p c = false) :
    (cs ++ rest).takeWhile p = cs ∧ (cs ++ rest).dropWhile p = rest := by
  have inside : ∀ c ∈ cs, p c = true := List.all_eq_true.mp run
  rw [List.takeWhile_append_of_pos inside, List.dropWhile_append_of_pos inside]
  cases rest with
  | nil => simp
  | cons c rest => simp [stop c rfl]

/-- A space is no token. -/
theorem lex_space (rest : List Char) : lex (' ' :: rest) = lex rest := by
  rw [lex, if_pos rfl]

/-- A quoted name is one token, read to its closing backtick; a backtick inside it is doubled. -/
theorem lex_name (name : String) {rest : List Char} (clear : rest.head? ≠ some backtick) :
    lex ((quoteIdentifier name).toList ++ rest) = (lex rest).map (.name name :: ·) := by
  have read := readName_doubleBackticks name.toList clear
  simp only [quoteIdentifier, String.toList_ofList, List.cons_append, List.append_assoc,
    List.nil_append]
  rw [lex, if_neg (by decide), if_pos rfl]
  split
  · rename_i name' after h
    rw [read] at h
    cases h
    rw [String.ofList_toList]
  · rename_i h
    rw [read] at h
    cases h

/-- A run of letters and digits is one token, if it is a word of the grammar. -/
theorem lex_word {c : Char} {cs rest : List Char} {token : Token}
    (run : (c :: cs).all isWord = true) (stop : ∀ d ∈ rest.head?, isWord d = false)
    (known : Token.ofWord? (c :: cs) = some token) :
    lex (c :: cs ++ rest) = (lex rest).map (token :: ·) := by
  rw [List.all_cons, Bool.and_eq_true] at run
  obtain ⟨first, others⟩ := run
  have blank : c ≠ ' ' := fun same => absurd first (by rw [same]; decide)
  have quote : c ≠ backtick := fun same => absurd first (by rw [same]; decide)
  obtain ⟨taken, dropped⟩ := span_append others stop
  rw [List.cons_append, lex, if_neg blank, if_neg quote, if_pos first, taken, dropped, known]
  rfl

/-- A run of operator signs is one token, if the whole run is an operator. -/
theorem lex_symbol {c : Char} {cs rest : List Char} {token : Token}
    (run : (c :: cs).all isSymbol = true) (stop : ∀ d ∈ rest.head?, isSymbol d = false)
    (known : Token.ofText? (String.ofList (c :: cs)) = some token) :
    lex (c :: cs ++ rest) = (lex rest).map (token :: ·) := by
  rw [List.all_cons, Bool.and_eq_true] at run
  obtain ⟨first, others⟩ := run
  have blank : c ≠ ' ' := fun same => absurd first (by rw [same]; decide)
  have quote : c ≠ backtick := fun same => absurd first (by rw [same]; decide)
  have letter : isWord c = false := by
    have apart : ['+', '-', '*', '/', '%', '=', '!', '<', '>', '&', '|', '^', '~'].all
        (fun c => !isWord c) = true := rfl
    simpa using List.all_eq_true.mp apart c (of_decide_eq_true first)
  obtain ⟨taken, dropped⟩ := span_append others stop
  rw [List.cons_append, lex, if_neg blank, if_neg quote, if_neg (by simp [letter]), if_pos first,
    taken, dropped, known]
  rfl

/-- Any other character is a token by itself. -/
theorem lex_punctuation {c : Char} {token : Token}
    (single : c ≠ ' ' ∧ c ≠ backtick ∧ ¬isWord c ∧ ¬isSymbol c)
    (known : Token.ofPunctuation? c = some token) (rest : List Char) :
    lex (c :: rest) = (lex rest).map (token :: ·) := by
  obtain ⟨blank, quote, letter, symbol⟩ := single
  rw [lex, if_neg blank, if_neg quote, if_neg letter, if_neg symbol, known]
  rfl

theorem lex_leftParen (rest : List Char) : lex ('(' :: rest) = (lex rest).map (.leftParen :: ·) :=
  lex_punctuation (by decide) rfl rest

theorem lex_rightParen (rest : List Char) :
    lex (')' :: rest) = (lex rest).map (.rightParen :: ·) :=
  lex_punctuation (by decide) rfl rest

theorem lex_dot (rest : List Char) : lex ('.' :: rest) = (lex rest).map (.dot :: ·) :=
  lex_punctuation (by decide) rfl rest

/-- The token of a binary operator, before a space. -/
theorem lex_operator (op : BinaryOp) (rest : List Char) :
    lex (op.token.toList ++ ' ' :: rest) = (lex rest).map (.operator op :: ·) := by
  have words : ∀ d ∈ (' ' :: rest).head?, isWord d = false := by
    intro d h
    rw [← Option.some.inj h]
    decide
  have symbols : ∀ d ∈ (' ' :: rest).head?, isSymbol d = false := by
    intro d h
    rw [← Option.some.inj h]
    decide
  rw [← lex_space rest]
  cases op with
  | and | or | intDiv => exact lex_word (by decide) words (by decide)
  | _ => exact lex_symbol (by decide) symbols (by decide)

/-- A word of the grammar, before a space or a closing parenthesis. -/
theorem lex_keyword {c : Char} {cs rest : List Char} {token : Token} (ends : Ends rest)
    (run : (c :: cs).all isWord = true) (known : Token.ofWord? (c :: cs) = some token) :
    lex (c :: cs ++ rest) = (lex rest).map (token :: ·) := by
  apply lex_word run _ known
  intro d h
  rcases ends d h with rfl | rfl
  · decide
  · decide

theorem lex_not {rest : List Char} (ends : Ends rest) :
    lex ("NOT".toList ++ rest) = (lex rest).map (.not :: ·) :=
  lex_keyword ends (by decide) (by decide)

theorem lex_is {rest : List Char} (ends : Ends rest) :
    lex ("IS".toList ++ rest) = (lex rest).map (.is :: ·) :=
  lex_keyword ends (by decide) (by decide)

theorem lex_null {rest : List Char} (ends : Ends rest) :
    lex ("NULL".toList ++ rest) = (lex rest).map (.null :: ·) :=
  lex_keyword ends (by decide) (by decide)

/-- A sign in front of a group. -/
theorem lex_sign {c : Char} (token : Token) (run : [c].all isSymbol = true)
    (known : Token.ofText? (String.ofList [c]) = some token) (rest : List Char) :
    lex (c :: '(' :: rest) = (lex ('(' :: rest)).map (token :: ·) := by
  apply lex_symbol run _ known
  intro d h
  rw [← Option.some.inj h]
  decide

/-- A number is one token, as its text is a run of digits. -/
theorem lex_natText (n : Nat) {rest : List Char} (ends : Ends rest) :
    lex ((natText n).toList ++ rest) = (lex rest).map (.number n :: ·) := by
  have digit : (digits n).all Char.isDigit = true := by
    rw [List.all_eq_true]
    intro c mem
    exact Nat.isDigit_of_mem_toDigits (by decide) (by decide) mem
  have word : (digits n).all isWord = true := by
    rw [List.all_eq_true] at digit ⊢
    intro c mem
    simp [isWord, Char.isAlphanum, digit c mem]
  have known : Token.ofWord? (digits n) = some (.number n) := by
    rw [Token.ofWord?, if_pos digit, ofDigits_digits]
  rw [natText, String.toList_ofList]
  cases shape : digits n with
  | nil => exact absurd shape Nat.toDigits_ne_nil
  | cons c cs =>
      rw [shape] at word known
      exact lex_keyword ends word known

end Grammar

namespace OperatorTree

/-- A column is its name, or its qualifier, a dot and its name. -/
theorem lex_column (c : ColumnName) {rest : List Char} (ends : Ends rest) :
    lex (c.fragment.sql.toList ++ rest) = (lex rest).map ((column c).tokens ++ ·) := by
  obtain ⟨qualifier, name⟩ := c
  cases qualifier with
  | none => exact lex_name name ends.head?_ne
  | some q =>
      have dot : ('.' :: ((quoteIdentifier name).toList ++ rest)).head? ≠ some backtick := by
        intro same
        exact absurd (Option.some.inj same) (by decide)
      have text : (ColumnName.fragment ⟨some q, name⟩).sql.toList ++ rest =
          (quoteIdentifier q).toList ++ '.' :: ((quoteIdentifier name).toList ++ rest) := by
        simp [ColumnName.fragment, sql_concat, sql, String.toList_append]
      rw [text, lex_name q dot, lex_dot, lex_name name ends.head?_ne]
      simp [tokens, Function.comp_def]

/-- The text of an operator tree is cut into its tokens. -/
theorem lex_sql (t : OperatorTree) {rest : List Char} (ends : Ends rest) :
    lex (t.fragment.sql.toList ++ rest) = (lex rest).map (t.tokens ++ ·) := by
  induction t generalizing rest with
  | column c => exact lex_column c ends
  | number n => exact lex_natText n ends
  | unary op child ih =>
      have group : lex ('(' :: (child.fragment.sql.toList ++ ')' :: rest)) =
          (lex rest).map (.leftParen :: (child.tokens ++ [.rightParen]) ++ ·) := by
        rw [lex_leftParen, ih (ends_paren rest), lex_rightParen]
        simp [Function.comp_def]
      cases op with
      | not =>
          have text : (unary .not child).fragment.sql.toList ++ rest =
              "NOT".toList ++ ' ' :: '(' :: (child.fragment.sql.toList ++ ')' :: rest) := by
            simp [fragment, Rule.applyUnary, sql_concat, sql_parenthesize, sql]
          rw [text, lex_not (ends_space _), lex_space, group, Option.map_map]
          rfl
      | negate =>
          have text : (unary .negate child).fragment.sql.toList ++ rest =
              '-' :: '(' :: (child.fragment.sql.toList ++ ')' :: rest) := by
            simp [fragment, Rule.applyUnary, sql_concat, sql_parenthesize, sql]
          rw [text, lex_sign (.operator .sub) (by decide) (by decide), group, Option.map_map]
          rfl
      | bitNot =>
          have text : (unary .bitNot child).fragment.sql.toList ++ rest =
              '~' :: '(' :: (child.fragment.sql.toList ++ ')' :: rest) := by
            simp [fragment, Rule.applyUnary, sql_concat, sql_parenthesize, sql]
          rw [text, lex_sign .tilde (by decide) (by decide), group, Option.map_map]
          rfl
      | isNull =>
          have text : (unary .isNull child).fragment.sql.toList ++ rest =
              '(' :: (child.fragment.sql.toList ++ ' ' :: ("IS".toList ++
                ' ' :: ("NULL".toList ++ ')' :: rest))) := by
            simp [fragment, Rule.applyUnary, sql_concat, sql_parenthesize, sql]
          rw [text, lex_leftParen, ih (ends_space _), lex_space, lex_is (ends_space _), lex_space,
            lex_null (ends_paren _), lex_rightParen]
          simp [tokens, Function.comp_def]
      | isNotNull =>
          have text : (unary .isNotNull child).fragment.sql.toList ++ rest =
              '(' :: (child.fragment.sql.toList ++ ' ' :: ("IS".toList ++
                ' ' :: ("NOT".toList ++ ' ' :: ("NULL".toList ++ ')' :: rest)))) := by
            simp [fragment, Rule.applyUnary, sql_concat, sql_parenthesize, sql]
          rw [text, lex_leftParen, ih (ends_space _), lex_space, lex_is (ends_space _), lex_space,
            lex_not (ends_space _), lex_space, lex_null (ends_paren _), lex_rightParen]
          simp [tokens, Function.comp_def]
  | binary op left right ihl ihr =>
      have text : (binary op left right).fragment.sql.toList ++ rest =
          '(' :: (left.fragment.sql.toList ++ ' ' :: (op.token.toList ++
            ' ' :: (right.fragment.sql.toList ++ ')' :: rest))) := by
        simp [fragment, sql_words, sql_parenthesize, sql]
      rw [text, lex_leftParen, ihl (ends_space _), lex_space, lex_operator, ihr (ends_paren _),
        lex_rightParen]
      simp [tokens, Function.comp_def]

end OperatorTree

namespace Grammar

/-- What may follow a complete expression. -/
def Closes (rest : List Token) : Prop :=
  rest = [] ∨ ∃ after, rest = .rightParen :: after

/-- At the end of a text and before a closing parenthesis there is nothing to go on with. -/
theorem extend_of_closes {rest : List Token} (closes : Closes rest) (fuel least : Nat)
    (left : OperatorTree) : extend (fuel + 1) least left rest = some (left, rest) := by
  rcases closes with rfl | ⟨after, rfl⟩
  · rfl
  · rfl

/-- No operator after an operand binds as tight as a sign. -/
theorem extend_sign (fuel : Nat) (left : OperatorTree) (rest : List Token) :
    extend (fuel + 1) UnaryOp.negate.level left rest = some (left, rest) := by
  unfold extend
  split
  · rename_i op rest
    have loose : ¬UnaryOp.negate.level ≤ op.level := by cases op <;> decide
    rw [if_neg loose]
  · rw [if_neg (by decide)]
  · rw [if_neg (by decide)]
  · rfl

/-- A negation ends before a connective. -/
theorem extend_negation {op : BinaryOp} (connective : op.isConnective = true) (fuel : Nat)
    (left : OperatorTree) (rest : List Token) :
    extend (fuel + 1) UnaryOp.not.level left (.operator op :: rest) =
      some (left, .operator op :: rest) := by
  have loose : ¬UnaryOp.not.level ≤ op.level := by cases op <;> first | decide | cases connective
  rw [extend, if_neg loose]

/-- An operator in front of its operand. -/
theorem operand_prefixOperator {token : Token} {op : UnaryOp}
    (known : token.prefixOperator? = some op) (fuel least : Nat) (rest : List Token) :
    operand (fuel + 1) least (token :: rest) =
      if least ≤ op.level then
        (expression fuel op.level rest).map fun (child, after) => (.unary op child, after)
      else
        none := by
  have shape : operand (fuel + 1) least (token :: rest) = (do
      let op ← token.prefixOperator?
      if least ≤ op.level then
        let (child, after) ← expression fuel op.level rest
        some (.unary op child, after)
      else
        none) := by
    cases token <;> first | rfl | cases known
  rw [shape, known]
  by_cases tight : least ≤ op.level
  · simp only [Option.bind_eq_bind, Option.bind_some, if_pos tight]
    cases expression fuel op.level rest <;> rfl
  · simp only [Option.bind_eq_bind, Option.bind_some, if_neg tight]

end Grammar

namespace OperatorTree

/-- The reader gives the tree that is read back, whatever the expression stands in front of. -/
def IsRead (t : OperatorTree) : Prop :=
  ∀ fuel least rest, 2 * t.tokens.length ≤ fuel → least ≤ UnaryOp.negate.level → Closes rest →
    expression fuel least (t.tokens ++ rest) =
      if t.isNegation && UnaryOp.not.level < least then none else t.readBack.map (·, rest)

/-- The reader gives the tree that is read back, if it begins with it as an operand. -/
def IsReadAsOperand (t : OperatorTree) : Prop :=
  ∀ fuel least rest, 2 * t.tokens.length ≤ fuel + 1 → least ≤ UnaryOp.negate.level →
    rest.head? ≠ some .dot → operand fuel least (t.tokens ++ rest) = t.readBack.map (·, rest)

/-- A group is read as what stands inside. -/
theorem operand_parens {inside rest : List Token} {tree : Option OperatorTree} {fuel : Nat}
    (inner : expression fuel 0 inside = tree.map (·, .rightParen :: rest)) (least : Nat) :
    operand (fuel + 1) least (.leftParen :: inside) = tree.map (·, rest) := by
  rw [operand, inner]
  cases tree <;> rfl

/-- A tree in parentheses is read as an operand whatever operator stands in front, since the
parentheses begin anew. -/
theorem operand_group {t : OperatorTree} (read : t.IsRead) {fuel : Nat}
    (enough : 2 * t.tokens.length ≤ fuel) (least : Nat) (rest : List Token) :
    operand (fuel + 1) least (.leftParen :: (t.tokens ++ .rightParen :: rest)) =
      t.readBack.map (·, rest) := by
  apply operand_parens
  rw [read fuel 0 (.rightParen :: rest) enough (by decide) (.inr ⟨rest, rfl⟩)]
  simp

/-- After an operand that is no negation the reader goes on with what follows. -/
theorem expression_operand {t : OperatorTree} (read : t.IsReadAsOperand) {fuel : Nat}
    (enough : 2 * t.tokens.length ≤ fuel + 1) {least : Nat} (tight : least ≤ UnaryOp.negate.level)
    {rest : List Token} (dotless : rest.head? ≠ some .dot) :
    expression (fuel + 1) least (t.tokens ++ rest) =
      t.readBack.bind fun tree => extend fuel least tree rest := by
  rw [expression, read fuel least rest enough tight dotless]
  cases t.readBack <;> rfl

/-- After a negation the reader first goes on with what binds tighter than it. -/
theorem expression_negation {t : OperatorTree} (read : t.IsRead) {fuel : Nat}
    (enough : 2 * t.tokens.length ≤ fuel) {least : Nat} (loose : least ≤ UnaryOp.not.level)
    (rest : List Token) :
    expression (fuel + 4) least ((unary .not t).tokens ++ rest) =
      t.readBack.bind fun tree =>
        (extend (fuel + 1) UnaryOp.not.level tree rest).bind fun (inner, after) =>
          extend (fuel + 3) least (.unary .not inner) after := by
  have group := operand_group read enough UnaryOp.not.level rest
  have shape : (unary .not t).tokens ++ rest =
      .not :: .leftParen :: (t.tokens ++ .rightParen :: rest) := by
    simp [tokens]
  rw [shape, expression, operand_prefixOperator rfl, if_pos loose, expression, group]
  cases t.readBack with
  | none => rfl
  | some tree =>
      simp only [Option.map_some, Option.bind_eq_bind, Option.bind_some]
      cases extend (fuel + 1) UnaryOp.not.level tree rest <;> rfl

/-- A binary operator takes what follows it, up to the closing parenthesis, as its right operand. A
negation there would bind less than the operator. -/
theorem extend_operator {right : OperatorTree} (read : right.IsRead) {fuel : Nat}
    (enough : 2 * right.tokens.length ≤ fuel + 1) {op : BinaryOp} {least : Nat}
    (tight : least ≤ op.level) (left : OperatorTree) (rest : List Token) :
    extend (fuel + 2) least left (.operator op :: (right.tokens ++ .rightParen :: rest)) =
      if right.isNegation && !op.isConnective then none
      else right.readBack.map fun after => (.binary op left after, .rightParen :: rest) := by
  have closes : Closes (.rightParen :: rest) := .inr ⟨rest, rfl⟩
  have bound : op.level + 1 ≤ UnaryOp.negate.level := by cases op <;> decide
  have loose : decide (UnaryOp.not.level < op.level + 1) = !op.isConnective := by
    cases op <;> rfl
  have operand := read (fuel + 1) (op.level + 1) (.rightParen :: rest) enough bound closes
  rw [loose] at operand
  rw [extend, if_pos tight, operand]
  split
  · rfl
  · cases right.readBack with
    | none => rfl
    | some after => exact extend_of_closes closes fuel least _

/-- A test for null takes what stands before it as its operand. -/
theorem extend_test {op : UnaryOp} {words : List Token}
    (test : op = .isNull ∧ words = [.is, .null] ∨ op = .isNotNull ∧ words = [.is, .not, .null])
    {least : Nat} (tight : least ≤ op.level) (fuel : Nat) (left : OperatorTree)
    (rest : List Token) :
    extend (fuel + 2) least left (words ++ .rightParen :: rest) =
      some (.unary op left, .rightParen :: rest) := by
  have closes : Closes (.rightParen :: rest) := .inr ⟨rest, rfl⟩
  rcases test with ⟨rfl, rfl⟩ | ⟨rfl, rfl⟩
  · rw [List.cons_append, List.cons_append, extend, if_pos tight]
    exact extend_of_closes closes fuel least _
  · rw [List.cons_append, List.cons_append, List.cons_append, extend, if_pos tight]
    exact extend_of_closes closes fuel least _

/-- A tree has at least one token, so the reader has a step for it. -/
theorem length_tokens_pos (t : OperatorTree) : 0 < t.tokens.length := by
  unfold tokens
  split <;> simp

/-- A tree that is no negation is read as an expression if it is read as an operand. -/
theorem IsReadAsOperand.isRead {t : OperatorTree} (read : t.IsReadAsOperand)
    (other : t.isNegation = false) : t.IsRead := by
  intro fuel least rest enough tight closes
  have positive := t.length_tokens_pos
  obtain ⟨fuel, rfl⟩ : ∃ n, fuel = n + 2 := ⟨fuel - 2, by omega⟩
  have dotless : rest.head? ≠ some .dot := by
    rcases closes with rfl | ⟨after, rfl⟩
    · exact nofun
    · exact nofun
  rw [expression_operand read (by omega) tight dotless, other]
  simp only [extend_of_closes closes, Bool.false_and, Bool.false_eq_true, if_false]
  cases t.readBack <;> rfl

/-- A negation is read as an expression that binds no tighter than a negation. -/
theorem isRead_negation {t : OperatorTree} (read : t.IsRead) : (unary .not t).IsRead := by
  intro fuel least rest enough tight closes
  have length : (unary .not t).tokens.length = t.tokens.length + 3 := by simp [tokens]
  obtain ⟨fuel, rfl⟩ : ∃ n, fuel = n + 4 := ⟨fuel - 4, by omega⟩
  by_cases loose : least ≤ UnaryOp.not.level
  · rw [expression_negation read (by omega) loose]
    simp only [extend_of_closes closes, Option.bind_some]
    have kept : ¬UnaryOp.not.level < least := Nat.not_lt.mpr loose
    cases back : t.readBack <;> simp [readBack, back, kept, UnaryOp.testsNull]
  · have shape : (unary .not t).tokens ++ rest =
        .not :: .leftParen :: (t.tokens ++ .rightParen :: rest) := by
      simp [tokens]
    rw [shape, expression, operand_prefixOperator rfl, if_neg loose]
    simp [isNegation, Nat.lt_of_not_le loose]

/-- A sign in front of a group is read as an operand. -/
theorem isReadAsOperand_sign {t : OperatorTree} (read : t.IsRead) {op : UnaryOp} {token : Token}
    (known : token.prefixOperator? = some op) (sign : op.level = UnaryOp.negate.level)
    (shape : (unary op t).tokens = token :: .leftParen :: t.tokens ++ [.rightParen])
    (back : (unary op t).readBack = t.readBack.map (.unary op)) : (unary op t).IsReadAsOperand := by
  intro fuel least rest enough tight _
  have length : (unary op t).tokens.length = t.tokens.length + 3 := by simp [shape]
  obtain ⟨fuel, rfl⟩ : ∃ n, fuel = n + 3 := ⟨fuel - 3, by omega⟩
  have text : (unary op t).tokens ++ rest =
      token :: .leftParen :: (t.tokens ++ .rightParen :: rest) := by
    simp [shape]
  rw [text, operand_prefixOperator known, sign, if_pos tight, expression,
    operand_group read (by omega), back]
  cases t.readBack with
  | none => rfl
  | some tree =>
      simp only [Option.map_some, Option.bind_eq_bind, Option.bind_some, extend_sign]

/-- A negation is a `NOT` over its operand. -/
theorem eq_not_of_isNegation {t : OperatorTree} (h : t.isNegation = true) :
    ∃ child, t = .unary .not child := by
  match t with
  | .unary .not child => exact ⟨child, rfl⟩

/-- All that is known of how a tree is read: as an expression, as an operand if it is no negation,
and inside of a negation. -/
structure Readable (t : OperatorTree) : Prop where
  isRead : t.IsRead
  asOperand : t.isNegation = false → t.IsReadAsOperand
  underNot : ∀ child, t = .unary .not child → child.IsRead

/-- A left operand and the operation after it, up to the closing parenthesis. What follows a
negation and binds tighter than it becomes part of the negation. -/
theorem Readable.expression_left {t : OperatorTree} (readable : t.Readable)
    {tail rest : List Token} (dotless : tail.head? ≠ some .dot) (closes : Closes rest)
    {around : Option (OperatorTree → OperatorTree)} {tight : Bool} {needed : Nat}
    (outside : ∀ fuel tree, needed ≤ fuel →
      extend fuel 0 tree tail = around.map fun wrap => (wrap tree, rest))
    (inside : ∀ fuel tree, needed ≤ fuel → extend fuel UnaryOp.not.level tree tail =
      if tight then around.map fun wrap => (wrap tree, rest) else some (tree, tail))
    {fuel : Nat} (enough : 2 * t.tokens.length + needed ≤ fuel) :
    expression fuel 0 (t.tokens ++ tail) = t.readBack.bind fun tree => around.map fun wrap =>
      (if t.isNegation && tight then tree.underNegation wrap else wrap tree, rest) := by
  have positive := t.length_tokens_pos
  by_cases negation : t.isNegation
  · obtain ⟨child, rfl⟩ := eq_not_of_isNegation negation
    have length : (unary .not child).tokens.length = child.tokens.length + 3 := by simp [tokens]
    obtain ⟨fuel, rfl⟩ : ∃ n, fuel = n + 4 := ⟨fuel - 4, by omega⟩
    have back : (unary .not child).readBack = child.readBack.map (.unary .not) := by
      cases back : child.readBack <;> simp [readBack, back, UnaryOp.testsNull]
    rw [expression_negation (readable.underNot child rfl) (by omega) (by decide), back]
    cases child.readBack with
    | none => rfl
    | some tree =>
        simp only [Option.bind_some, Option.map_some, inside (fuel + 1) tree (by omega), negation]
        cases tight with
        | false => exact outside (fuel + 3) (.unary .not tree) (by omega)
        | true =>
            cases around with
            | none => rfl
            | some wrap => exact extend_of_closes closes (fuel + 2) 0 _
  · rw [Bool.not_eq_true] at negation
    obtain ⟨fuel, rfl⟩ : ∃ n, fuel = n + 1 := ⟨fuel - 1, by omega⟩
    rw [expression_operand (readable.asOperand negation) (by omega) (by decide) dotless, negation]
    cases t.readBack with
    | none => rfl
    | some tree => exact outside fuel tree (by omega)

/-- A test for null is read as an operand, but a negation that it tests is moved outwards. -/
theorem Readable.test {t : OperatorTree} (readable : t.Readable) {op : UnaryOp}
    {words : List Token}
    (test : op = .isNull ∧ words = [.is, .null] ∨ op = .isNotNull ∧ words = [.is, .not, .null])
    (shape : (unary op t).tokens = .leftParen :: (t.tokens ++ (words ++ [.rightParen]))) :
    (unary op t).IsReadAsOperand := by
  intro fuel least rest enough _ _
  have closes : Closes (.rightParen :: rest) := .inr ⟨rest, rfl⟩
  have level : UnaryOp.not.level ≤ op.level ∧ op.testsNull = true := by
    rcases test with ⟨rfl, -⟩ | ⟨rfl, -⟩ <;> decide
  have dotless : (words ++ .rightParen :: rest).head? ≠ some .dot := by
    rcases test with ⟨-, rfl⟩ | ⟨-, rfl⟩ <;> exact nofun
  have step (least : Nat) (loose : least ≤ op.level) (fuel : Nat) (tree : OperatorTree)
      (enough : 2 ≤ fuel) : extend fuel least tree (words ++ .rightParen :: rest) =
        (some (unary op)).map fun wrap => (wrap tree, .rightParen :: rest) := by
    obtain ⟨fuel, rfl⟩ : ∃ n, fuel = n + 2 := ⟨fuel - 2, by omega⟩
    exact extend_test test loose fuel tree rest
  have inside (fuel : Nat) (tree : OperatorTree) (enough : 2 ≤ fuel) :
      extend fuel UnaryOp.not.level tree (words ++ .rightParen :: rest) =
        if true then (some (unary op)).map fun wrap => (wrap tree, .rightParen :: rest)
        else some (tree, words ++ .rightParen :: rest) := by
    rw [if_pos rfl]
    exact step _ level.1 fuel tree enough
  have length : 2 * t.tokens.length + 4 ≤ 2 * (unary op t).tokens.length := by
    simp [shape]
    omega
  obtain ⟨fuel, rfl⟩ : ∃ n, fuel = n + 1 := ⟨fuel - 1, by omega⟩
  have text : (unary op t).tokens ++ rest =
      .leftParen :: (t.tokens ++ (words ++ .rightParen :: rest)) := by
    simp [shape]
  rw [text]
  apply operand_parens
  rw [readable.expression_left dotless closes (step 0 (Nat.zero_le _)) inside (by omega), readBack,
    level.2]
  cases t.readBack with
  | none => rfl
  | some tree => cases t.isNegation <;> rfl

/-- The operation that the target reads in a binary operator and its right operand, around whatever
stands on the left. -/
def operationWith (op : BinaryOp) (right : OperatorTree) : Option (OperatorTree → OperatorTree) :=
  if right.isNegation && !op.isConnective then none
  else right.readBack.map fun after before => .binary op before after

/-- A binary operation is read as an operand, but a negation on its left side is moved outwards,
and one on its right side is a mistake. -/
theorem Readable.binary {left right : OperatorTree} (readableLeft : left.Readable)
    (readableRight : right.Readable) (op : BinaryOp) :
    (OperatorTree.binary op left right).IsReadAsOperand := by
  intro fuel least rest enough _ _
  have closes : Closes (.rightParen :: rest) := .inr ⟨rest, rfl⟩
  have dotless : (Token.operator op :: (right.tokens ++ .rightParen :: rest)).head? ≠ some .dot :=
    nofun
  have step (least : Nat) (loose : least ≤ op.level) (fuel : Nat) (tree : OperatorTree)
      (enough : 2 * right.tokens.length + 1 ≤ fuel) :
      extend fuel least tree (.operator op :: (right.tokens ++ .rightParen :: rest)) =
        (operationWith op right).map fun wrap => (wrap tree, .rightParen :: rest) := by
    have positive := right.length_tokens_pos
    obtain ⟨fuel, rfl⟩ : ∃ n, fuel = n + 2 := ⟨fuel - 2, by omega⟩
    rw [extend_operator readableRight.isRead (by omega) loose]
    rw [operationWith]
    split
    · rfl
    · cases right.readBack <;> rfl
  have inside (fuel : Nat) (tree : OperatorTree) (enough : 2 * right.tokens.length + 1 ≤ fuel) :
      extend fuel UnaryOp.not.level tree
          (.operator op :: (right.tokens ++ .rightParen :: rest)) =
        if !op.isConnective then
          (operationWith op right).map fun wrap => (wrap tree, .rightParen :: rest)
        else some (tree, .operator op :: (right.tokens ++ .rightParen :: rest)) := by
    by_cases connective : op.isConnective
    · obtain ⟨fuel, rfl⟩ : ∃ n, fuel = n + 1 := ⟨fuel - 1, by omega⟩
      rw [extend_negation connective, connective]
      rfl
    · rw [Bool.not_eq_true] at connective
      have tight : UnaryOp.not.level ≤ op.level := by
        cases op <;> first | decide | cases connective
      rw [step _ tight fuel tree enough, connective]
      rfl
  have length : (OperatorTree.binary op left right).tokens.length =
      left.tokens.length + right.tokens.length + 3 := by
    simp [tokens]
    omega
  obtain ⟨fuel, rfl⟩ : ∃ n, fuel = n + 1 := ⟨fuel - 1, by omega⟩
  have text : (OperatorTree.binary op left right).tokens ++ rest = .leftParen :: (left.tokens ++
      (.operator op :: (right.tokens ++ .rightParen :: rest))) := by
    simp [tokens]
  rw [text]
  apply operand_parens
  rw [readableLeft.expression_left dotless closes (step 0 (Nat.zero_le _)) inside (by omega)]
  simp only [operationWith, readBack]
  cases left.readBack with
  | none => rfl
  | some before =>
      cases op.isConnective <;> cases right.isNegation <;> cases left.isNegation <;>
        cases right.readBack <;> rfl

/-- Every operator tree is read as the tree that is read back. -/
theorem readable (t : OperatorTree) : t.Readable := by
  have operand {t : OperatorTree} (other : t.isNegation = false) (read : t.IsReadAsOperand) :
      t.Readable := by
    refine ⟨read.isRead other, fun _ => read, ?_⟩
    rintro child rfl
    cases other
  induction t with
  | column c =>
      apply operand rfl
      intro fuel least rest enough _ dotless
      have positive := (column c).length_tokens_pos
      obtain ⟨fuel, rfl⟩ : ∃ n, fuel = n + 1 := ⟨fuel - 1, by omega⟩
      obtain ⟨qualifier, name⟩ := c
      cases qualifier with
      | some q => rfl
      | none =>
          cases rest with
          | nil => rfl
          | cons token rest =>
              cases token <;> first | rfl | exact absurd rfl dotless
  | number n =>
      apply operand rfl
      intro fuel least rest enough _ _
      have positive := (number n).length_tokens_pos
      obtain ⟨fuel, rfl⟩ : ∃ n, fuel = n + 1 := ⟨fuel - 1, by omega⟩
      rfl
  | unary op child ih =>
      have sign (plain : op.testsNull = false) :
          (unary op child).readBack = child.readBack.map (.unary op) := by
        cases back : child.readBack <;> simp [readBack, back, plain]
      cases op with
      | not =>
          refine ⟨isRead_negation ih.isRead, nofun, ?_⟩
          rintro child' same
          cases same
          exact ih.isRead
      | negate => exact operand rfl (isReadAsOperand_sign ih.isRead rfl rfl rfl (sign rfl))
      | bitNot => exact operand rfl (isReadAsOperand_sign ih.isRead rfl rfl rfl (sign rfl))
      | isNull => exact operand rfl (ih.test (.inl ⟨rfl, rfl⟩) (by simp [tokens]))
      | isNotNull => exact operand rfl (ih.test (.inr ⟨rfl, rfl⟩) (by simp [tokens]))
  | binary op left right ihl ihr => exact operand rfl (ihl.binary ihr op)

/-- What the target reads in the text of an operator tree. -/
theorem parse?_sql (t : OperatorTree) : parse? t.fragment.sql = t.readBack := by
  have cut : lex t.fragment.sql.toList = some t.tokens := by
    have all : lex (t.fragment.sql.toList ++ []) = (lex []).map (t.tokens ++ ·) := t.lex_sql nofun
    simpa [lex] using all
  have read : expression (2 * t.tokens.length) 0 (t.tokens ++ []) = t.readBack.map (·, []) := by
    rw [t.readable.isRead _ 0 [] (Nat.le_refl _) (Nat.zero_le _) (.inl rfl)]
    simp
  rw [List.append_nil] at read
  rw [parse?, cut]
  simp only [Option.bind_eq_bind, Option.bind_some, read]
  cases t.readBack <;> rfl

/-- A negation is read as a negation, whatever becomes of its operand. -/
theorem eq_not_of_readBack {t inner : OperatorTree} (negation : t.isNegation = true)
    (back : t.readBack = some inner) : ∃ child, inner = .unary .not child := by
  obtain ⟨child, rfl⟩ := eq_not_of_isNegation negation
  rw [readBack] at back
  obtain ⟨tree, -, same⟩ := Option.bind_eq_some_iff.mp back
  cases same
  exact ⟨tree, rfl⟩

/-- The target reads a tree as itself exactly when its negations stand apart. -/
theorem readBack_eq_some_iff (t : OperatorTree) :
    t.readBack = some t ↔ t.negationsApart = true := by
  induction t with
  | column c => simp [readBack, negationsApart]
  | number n => simp [readBack, negationsApart]
  | unary op child ih =>
      have apart : (unary op child).negationsApart = true ↔
          child.readBack = some child ∧ ¬(op.testsNull && child.isNegation) := by
        rw [negationsApart, Bool.and_eq_true, ih, Bool.not_eq_true', Bool.not_eq_true]
      rw [apart, readBack, Option.bind_eq_bind, Option.bind_eq_some_iff]
      by_cases moved : op.testsNull && child.isNegation
      · obtain ⟨test, negation⟩ := Bool.and_eq_true_iff.mp moved
        constructor
        · rintro ⟨inner, back, same⟩
          obtain ⟨tree, rfl⟩ := eq_not_of_readBack negation back
          rw [if_pos moved] at same
          cases same
          cases test
        · rintro ⟨-, unmoved⟩
          exact absurd moved unmoved
      · constructor
        · rintro ⟨inner, back, same⟩
          rw [if_neg moved] at same
          cases same
          exact ⟨back, moved⟩
        · rintro ⟨back, -⟩
          exact ⟨child, back, if_neg moved⟩
  | binary op left right ihl ihr =>
      have apart : (binary op left right).negationsApart = true ↔
          (left.readBack = some left ∧ right.readBack = some right) ∧
            (op.isConnective = true ∨ left.isNegation = false ∧ right.isNegation = false) := by
        rw [ihl, ihr, negationsApart]
        simp
      rw [apart, readBack, Option.bind_eq_bind, Option.bind_eq_some_iff]
      constructor
      · rintro ⟨before, backLeft, read⟩
        obtain ⟨after, backRight, same⟩ := Option.bind_eq_some_iff.mp read
        split at same
        · rename_i connective
          cases same
          exact ⟨⟨backLeft, backRight⟩, .inl connective⟩
        · split at same
          · cases same
          · rename_i rightOther
            split at same
            · rename_i negation
              obtain ⟨tree, rfl⟩ := eq_not_of_readBack negation backLeft
              cases same
            · rename_i leftOther
              cases same
              rw [Bool.not_eq_true] at leftOther rightOther
              exact ⟨⟨backLeft, backRight⟩, .inr ⟨leftOther, rightOther⟩⟩
      · rintro ⟨⟨backLeft, backRight⟩, connective | ⟨leftOther, rightOther⟩⟩
        · exact ⟨left, backLeft, by simp [backRight, connective]⟩
        · exact ⟨left, backLeft, by simp [backRight, leftOther, rightOther]⟩

end OperatorTree

/-- The names under which a context writes columns: their own, or those of a mapping. -/
inductive Dialect.Context.Names (ctx : Context) : (ColumnRef → Option ColumnName) → Prop
  | own (h : ctx.resolver = quotedColumns) :
      Names ctx fun ref => some ⟨ref.qualifier, ref.name⟩
  | mapped (m : ColumnMap) (h : ctx.resolver = m.resolver) :
      Names ctx fun ref => (m.identifier? ref).map (⟨none, ·⟩)

/-- Under both kinds of context a column is written as a name in quotes, or not at all. -/
theorem Dialect.Context.Names.resolver_eq {ctx : Context} {names : ColumnRef → Option ColumnName}
    (named : ctx.Names names) (ref : ColumnRef) :
    ctx.resolver ref = (names ref).map ColumnName.fragment := by
  cases named with
  | own h =>
      rw [h, quotedColumns]
      obtain ⟨id, name, qualifier, type⟩ := ref
      cases qualifier <;> rfl
  | mapped m h =>
      rw [h, ColumnMap.resolver, Option.map_map]
      rfl

/-- The number that a value is, if it is a whole one and not negative. -/
def Value.natural? : Value → Option Nat
  | .byte n => n.toInt.toNat?
  | .short n => n.toInt.toNat?
  | .int n => n.toInt.toNat?
  | .long n => n.toInt.toNat?
  | _ => none

namespace Expr

/-- The operator tree of an expression that is built from named columns, whole numbers and
operators only. -/
def operatorTree? (names : ColumnRef → Option ColumnName) : Expr → Option OperatorTree
  | .column ref => (names ref).map .column
  | .literal value _ => value.natural?.map .number
  | .unary op child => (child.operatorTree? names).map (.unary op)
  | .binary op left right => do
    let before ← left.operatorTree? names
    let after ← right.operatorTree? names
    some (.binary op before after)
  | _ => none

/-- A number that is not negative is written as its digits, whatever its width and its declared
type. -/
theorem encode_natural {value : Value} {n : Nat} (h : value.natural? = some n) (type : DataType) :
    Literal.encode value type = some (.nat n) := by
  have same {i : Int} (h : i.toNat? = some n) : Fragment.int i = .nat n := by
    cases i with
    | negSucc m => cases h
    | ofNat m =>
        cases h
        have positive : ¬Int.ofNat n < 0 := Int.not_lt.mpr (Int.natCast_nonneg n)
        rw [Fragment.int, intText, if_neg positive]
        rfl
  cases value with
  | byte m | short m | int m | long m => exact congrArg some (same h)
  | _ => cases h

/-- An expression of operators is lowered as its operator tree says. -/
theorem lower_operatorTree {ctx : Context} {names : ColumnRef → Option ColumnName}
    (named : ctx.Names names) {e : Expr} {t : OperatorTree} (h : e.operatorTree? names = some t) :
    (e.lower ctx).outcome = .done t.fragment := by
  induction e using lowering_induction generalizing t with
  | step e operand _ =>
      cases e with
      | column ref =>
          rw [operatorTree?] at h
          obtain ⟨name, known, rfl⟩ := Option.map_eq_some_iff.mp h
          rw [lower_column, named.resolver_eq, known]
          rfl
      | literal value type =>
          rw [operatorTree?] at h
          obtain ⟨n, known, rfl⟩ := Option.map_eq_some_iff.mp h
          rw [lower_literal, encode_natural known]
          rfl
      | unary op child =>
          rw [operatorTree?] at h
          obtain ⟨tree, inner, rfl⟩ := Option.map_eq_some_iff.mp h
          rw [lower_unary, Lowering.outcome_bind,
            operand child (mem_children_unary op child) inner]
          rfl
      | binary op left right =>
          rw [operatorTree?] at h
          obtain ⟨before, first, h⟩ := Option.bind_eq_some_iff.mp h
          obtain ⟨after, second, same⟩ := Option.bind_eq_some_iff.mp h
          cases same
          rw [lower_binary, Lowering.outcome_bind,
            operand left (left_mem_children op left right) first, Outcome.done_bind,
            Lowering.outcome_bind, operand right (right_mem_children op left right) second]
          rfl
      | _ => cases h

/-- The target reads an expression of operators as it was built exactly when no negation is an
operand of a test for null or of a binary operation other than a connective. -/
theorem parse?_lowerRoot_iff {ctx : Context} {names : ColumnRef → Option ColumnName}
    (named : ctx.Names names) {e : Expr} {t : OperatorTree} (h : e.operatorTree? names = some t) :
    ∃ f, (e.lowerRoot ctx).outcome = .done f ∧
      (Grammar.parse? f.render.sql = some t ↔ t.negationsApart = true) := by
  have lowered := lower_operatorTree named h
  refine ⟨t.fragment, ?_, ?_⟩
  · cases e <;> first | exact lowered | cases h
  · rw [render, t.parse?_sql]
    exact t.readBack_eq_some_iff

/-- A negation that is tested for null is read as another tree, and a negated test for null is read
as it was built. -/
theorem parse?_lowerRoot_of_tested_negation :
    (∃ f, ((Expr.unary .isNull (.unary .not (.column ⟨1, "a", none, .boolean⟩))).lowerRoot
        {}).outcome = .done f ∧
      Grammar.parse? f.render.sql ≠ some (.unary .isNull (.unary .not (.column ⟨none, "a"⟩)))) ∧
    ∃ f, ((Expr.unary .not (.unary .isNull (.column ⟨1, "a", none, .boolean⟩))).lowerRoot
        {}).outcome = .done f ∧
      Grammar.parse? f.render.sql = some (.unary .not (.unary .isNull (.column ⟨none, "a"⟩))) := by
  have named : ({} : Context).Names fun ref => some ⟨ref.qualifier, ref.name⟩ := .own rfl
  constructor
  · obtain ⟨f, lowered, condition⟩ := parse?_lowerRoot_iff named
      (e := .unary .isNull (.unary .not (.column ⟨1, "a", none, .boolean⟩))) rfl
    refine ⟨f, lowered, ?_⟩
    intro read
    exact absurd (condition.mp read) (by decide)
  · obtain ⟨f, lowered, condition⟩ := parse?_lowerRoot_iff named
      (e := .unary .not (.unary .isNull (.column ⟨1, "a", none, .boolean⟩))) rfl
    exact ⟨f, lowered, condition.mpr (by decide)⟩

end Expr

end SqlLowering
