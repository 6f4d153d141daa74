import SqlLowering.Operator
import SqlLowering.Proofs.Scanning

/-!
# The operator grammar of the target

The target reads a text in two steps. `Grammar.lex` cuts it into tokens: quoted names, numbers, and
the longest runs of letters or of operator characters, so that `--` and `/*` are never two
operators. `Grammar.expression` then builds a tree by the precedence of operators, from the loosest
to the tightest:

`OR`, then `AND`, then `NOT`, then comparisons with `IS NULL` and `IS NOT NULL`, then `|`, `&`,
shifts, sums, products, `^`, and last the signs `-` and `~`. All binary operators group to the left.

The grammar knows nothing of lowering. It is the one that the target documents, less the operators
and functions that lowering an operator tree never writes.
-/

namespace SqlLowering

open Text

/-- A column as the target names it. -/
structure ColumnName where
  qualifier : Option String
  name : String
deriving DecidableEq

/-- A tree of operators over columns and numbers. -/
inductive OperatorTree where
  | column (name : ColumnName)
  | number (n : Nat)
  | unary (op : UnaryOp) (child : OperatorTree)
  | binary (op : BinaryOp) (left right : OperatorTree)
deriving DecidableEq

/-- How tight an operator binds its operands. -/
def BinaryOp.level : BinaryOp → Nat
  | or => 1
  | and => 2
  | eq | notEq | nullSafeEq | lt | ltEq | gt | gtEq => 4
  | bitOr => 5
  | bitAnd => 6
  | shiftLeft | shiftRight => 7
  | add | sub => 8
  | mul | div | intDiv | rem => 9
  | bitXor => 10

/-- How tight an operator binds its operand. -/
def UnaryOp.level : UnaryOp → Nat
  | not => 3
  | isNull | isNotNull => 4
  | negate | bitNot => 11

namespace Grammar

/-- A token of the target. A minus sign is the same token before an operand and between two. -/
inductive Token where
  | name (s : String)
  | number (n : Nat)
  | operator (op : BinaryOp)
  | tilde
  | not
  | is
  | null
  | dot
  | leftParen
  | rightParen
deriving DecidableEq

/-- The token that a run of letters or of operator characters spells. -/
def Token.ofText? (s : String) : Option Token :=
  if s = "NOT" then some .not
  else if s = "IS" then some .is
  else if s = "NULL" then some .null
  else if s = "~" then some .tilde
  else (BinaryOp.all.find? (·.token == s)).map .operator

/-- The token of a run of letters and digits: a number if there are digits only. -/
def Token.ofWord? (cs : List Char) : Option Token :=
  if cs.all Char.isDigit then some (.number (ofDigits cs)) else ofText? (String.ofList cs)

/-- The token of a single character that is never part of a longer one. -/
def Token.ofPunctuation? (c : Char) : Option Token :=
  if c = '(' then some .leftParen
  else if c = ')' then some .rightParen
  else if c = '.' then some .dot
  else none

/-- The characters of keywords and numbers. -/
def isWord (c : Char) : Bool :=
  c.isAlphanum || c == '_'

/-- The characters of operators. -/
def isSymbol (c : Char) : Bool :=
  c ∈ ['+', '-', '*', '/', '%', '=', '!', '<', '>', '&', '|', '^', '~']

/-- Cut a text into tokens; there is no answer for a text with an unknown token. -/
def lex (cs : List Char) : Option (List Token) :=
  match cs with
  | [] => some []
  | c :: rest =>
    if c = ' ' then lex rest
    else if c = backtick then
      match h : readName rest with
      | some (name, after) =>
        have := length_lt_of_readName h
        (lex after).map (.name (String.ofList name) :: ·)
      | none => none
    else if isWord c then do
      let token ← Token.ofWord? (c :: rest.takeWhile isWord)
      (lex (rest.dropWhile isWord)).map (token :: ·)
    else if isSymbol c then do
      let token ← Token.ofText? (String.ofList (c :: rest.takeWhile isSymbol))
      (lex (rest.dropWhile isSymbol)).map (token :: ·)
    else do
      let token ← Token.ofPunctuation? c
      (lex rest).map (token :: ·)
termination_by cs.length
decreasing_by
  all_goals simp only [List.length_cons]
  · omega
  · omega
  · exact Nat.lt_succ_of_le (List.dropWhile_sublist _).length_le
  · exact Nat.lt_succ_of_le (List.dropWhile_sublist _).length_le
  · omega

/-- The operator that a token is in front of an operand. -/
def Token.prefixOperator? : Token → Option UnaryOp
  | .not => some .not
  | .operator .sub => some .negate
  | .tilde => some .bitNot
  | _ => none

mutual

/-- Read an operand: an atom, a group, or an operator in front of an expression. The operator must
bind at least as tight as `least`. -/
def operand : Nat → Nat → List Token → Option (OperatorTree × List Token)
  | 0, _, _ => none
  | fuel + 1, least, tokens =>
    match tokens with
    | [] => none
    | .number n :: rest => some (.number n, rest)
    | .name q :: .dot :: .name s :: rest => some (.column ⟨some q, s⟩, rest)
    | .name s :: rest => some (.column ⟨none, s⟩, rest)
    | .leftParen :: rest => do
      let (inner, after) ← expression fuel 0 rest
      match after with
      | .rightParen :: rest => some (inner, rest)
      | _ => none
    | token :: rest => do
      let op ← token.prefixOperator?
      if least ≤ op.level then
        let (child, after) ← expression fuel op.level rest
        some (.unary op child, after)
      else
        none

/-- Read an expression whose operators all bind at least as tight as `least`. -/
def expression : Nat → Nat → List Token → Option (OperatorTree × List Token)
  | 0, _, _ => none
  | fuel + 1, least, tokens => do
    let (left, rest) ← operand fuel least tokens
    extend fuel least left rest

/-- Go on after a left operand, as long as operators bind at least as tight as `least`. A right
operand binds tighter than its operator. -/
def extend : Nat → Nat → OperatorTree → List Token → Option (OperatorTree × List Token)
  | 0, _, _, _ => none
  | fuel + 1, least, left, tokens =>
    match tokens with
    | .operator op :: rest =>
      if least ≤ op.level then do
        let (right, after) ← expression fuel (op.level + 1) rest
        extend fuel least (.binary op left right) after
      else
        some (left, tokens)
    | .is :: .null :: rest =>
      if least ≤ UnaryOp.isNull.level then extend fuel least (.unary .isNull left) rest
      else some (left, tokens)
    | .is :: .not :: .null :: rest =>
      if least ≤ UnaryOp.isNotNull.level then extend fuel least (.unary .isNotNull left) rest
      else some (left, tokens)
    | _ => some (left, tokens)

end

/-- The tree that the target reads in a text. Every step of the reader uses up a token or goes down
one level, so twice the number of tokens bounds its depth. -/
def parse? (text : String) : Option OperatorTree := do
  let tokens ← lex text.toList
  let (tree, rest) ← expression (2 * tokens.length) 0 tokens
  if rest = [] then some tree else none

-- Multiplication binds tighter than subtraction, which is read from the left.
example : parse? "1 - 2 - 3 * 4" =
    some (.binary .sub (.binary .sub (.number 1) (.number 2))
      (.binary .mul (.number 3) (.number 4))) := by
  decide +kernel

-- A negation reaches as far as it can, and is no right operand of a comparison.
example : parse? "NOT 1 = 2" = some (.unary .not (.binary .eq (.number 1) (.number 2))) ∧
    parse? "1 = NOT 2" = none := by
  decide +kernel

end Grammar

end SqlLowering
