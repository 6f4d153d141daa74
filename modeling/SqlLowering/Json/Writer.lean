import SqlLowering.Json.Basic
import SqlLowering.Json.Token

/-!
# Writing JSON

A compact text on one line, which is the tokens of the value one after the other, and a text over
several lines with an indentation of two blanks. Only quotes, backslashes and control characters are
escaped in strings. What is unreadable is written as a string with nothing but half a pair in it.
-/

namespace SqlLowering.Json

/-- A hexadecimal digit in lower case. -/
def hexDigit (n : Nat) : Char :=
  "0123456789abcdef".toList.getD n '0'

/-- A character inside a string. -/
def escapeChar (c : Char) : List Char :=
  if c = '"' then ['\\', '"']
  else if c = '\\' then ['\\', '\\']
  else if c = '\x08' then ['\\', 'b']
  else if c = '\x0c' then ['\\', 'f']
  else if c = '\n' then ['\\', 'n']
  else if c = '\r' then ['\\', 'r']
  else if c = '\t' then ['\\', 't']
  else if c.toNat < 0x20 then
    ['\\', 'u', '0', '0', hexDigit (c.toNat / 16), hexDigit (c.toNat % 16)]
  else [c]

/-- A string in quotes. -/
def quoted (s : String) : List Char :=
  '"' :: s.toList.flatMap escapeChar ++ ['"']

/-- The characters of a token. -/
def Token.chars : Token → List Char
  | .openBracket => ['[']
  | .closeBracket => [']']
  | .openBrace => ['\x7b']
  | .closeBrace => ['\x7d']
  | .comma => [',']
  | .colon => [':']
  | .null => ['n', 'u', 'l', 'l']
  | .bool true => ['t', 'r', 'u', 'e']
  | .bool false => ['f', 'a', 'l', 's', 'e']
  | .number n => n.chars
  | .string s => quoted s
  | .unreadable => ['"', '\\', 'u', 'd', '8', '0', '0', '"']

mutual

/-- The tokens of a value. -/
def tokens : Json → List Token
  | .null => [.null]
  | .bool b => [.bool b]
  | .number n => [.number n]
  | .string s => [.string s]
  | .unreadable => [.unreadable]
  | .array [] => [.openBracket, .closeBracket]
  | .array (item :: items) =>
    .openBracket :: item.tokens ++ tokensOfItems items ++ [.closeBracket]
  | .object [] => [.openBrace, .closeBrace]
  | .object ((name, value) :: members) =>
    .openBrace :: .string name :: .colon :: value.tokens ++ tokensOfMembers members ++ [.closeBrace]

/-- The tokens of items, each after a comma. -/
def tokensOfItems : List Json → List Token
  | [] => []
  | item :: items => .comma :: item.tokens ++ tokensOfItems items

/-- The tokens of members, each after a comma. -/
def tokensOfMembers : List (String × Json) → List Token
  | [] => []
  | (name, value) :: members =>
    .comma :: .string name :: .colon :: value.tokens ++ tokensOfMembers members

end

/-- The text on one line, without blanks. -/
def compact (j : Json) : String :=
  String.ofList (j.tokens.flatMap Token.chars)

/-- A line break and the indentation of a level. -/
def lineBreak (level : Nat) : List Char :=
  '\n' :: List.replicate (2 * level) ' '

mutual

/-- The characters over several lines; `level` is the level of the line it begins on. -/
def prettyChars (level : Nat) : Json → List Char
  | .array [] => ['[', ']']
  | .array (item :: items) =>
    '[' :: lineBreak (level + 1) ++ prettyChars (level + 1) item ++ prettyItems (level + 1) items ++
      lineBreak level ++ [']']
  | .object [] => ['\x7b', '\x7d']
  | .object ((name, value) :: members) =>
    '\x7b' :: lineBreak (level + 1) ++ quoted name ++ [':', ' '] ++ prettyChars (level + 1) value ++
      prettyMembers (level + 1) members ++ lineBreak level ++ ['\x7d']
  | .null => Token.null.chars
  | .bool b => (Token.bool b).chars
  | .number n => n.chars
  | .string s => quoted s
  | .unreadable => Token.unreadable.chars

/-- Items after a comma, each on a line of its own. -/
def prettyItems (level : Nat) : List Json → List Char
  | [] => []
  | item :: items => ',' :: lineBreak level ++ prettyChars level item ++ prettyItems level items

/-- Members after a comma, each on a line of its own. -/
def prettyMembers (level : Nat) : List (String × Json) → List Char
  | [] => []
  | (name, value) :: members =>
    ',' :: lineBreak level ++ quoted name ++ [':', ' '] ++ prettyChars level value ++
      prettyMembers level members

end

/-- The text over several lines. -/
def pretty (j : Json) : String :=
  String.ofList (j.prettyChars 0)

end SqlLowering.Json
