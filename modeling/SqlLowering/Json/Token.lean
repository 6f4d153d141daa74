import SqlLowering.Json.Numeral

/-!
# Tokens of a JSON text

Strict JSON: four blanks, no comments, no leading zeros, and no raw control characters in strings. A
string whose escapes leave half a surrogate pair is a token, but an unreadable one. Scanning takes
one token after the other from the front of the text.
-/

namespace SqlLowering.Json

/-- A token of a JSON text. -/
inductive Token where
  | openBracket
  | closeBracket
  | openBrace
  | closeBrace
  | comma
  | colon
  | null
  | bool (value : Bool)
  | number (value : Numeral)
  | string (value : String)
  /-- a string with half a surrogate pair in it -/
  | unreadable
deriving DecidableEq, Repr

namespace Token

/-- A character between tokens. -/
def isBlank (c : Char) : Bool :=
  c == ' ' || c == '\t' || c == '\n' || c == '\r'

/-- The value of a hexadecimal digit. -/
def hexValue? (c : Char) : Option Nat :=
  if c.isDigit then some (c.toNat - '0'.toNat)
  else if 'a' ≤ c ∧ c ≤ 'f' then some (c.toNat - 'a'.toNat + 10)
  else if 'A' ≤ c ∧ c ≤ 'F' then some (c.toNat - 'A'.toNat + 10)
  else none

/-- The value of four hexadecimal digits. -/
def hexUnit? (a b c d : Char) : Option Nat := do
  pure ((((← hexValue? a) * 16 + (← hexValue? b)) * 16 + (← hexValue? c)) * 16 + (← hexValue? d))

/-- A piece of a string: a character, or a unit of 16 bits given by its number. -/
inductive Piece where
  | char (c : Char)
  | unit (n : Nat)

/-- The character that an escape of one letter stands for. -/
def escaped? : Char → Option Char
  | '"' => some '"'
  | '\\' => some '\\'
  | '/' => some '/'
  | 'b' => some '\x08'
  | 'f' => some '\x0c'
  | 'n' => some '\n'
  | 'r' => some '\r'
  | 't' => some '\t'
  | _ => none

/-- Read the pieces of a string up to the closing quote. -/
def pieces : List Char → Option (List Piece × List Char)
  | [] => none
  | '"' :: rest => some ([], rest)
  | '\\' :: 'u' :: a :: b :: c :: d :: rest => do
    let n ← hexUnit? a b c d
    let (ps, rest) ← pieces rest
    pure (.unit n :: ps, rest)
  | '\\' :: e :: rest => do
    let c ← escaped? e
    let (ps, rest) ← pieces rest
    pure (.char c :: ps, rest)
  | c :: rest =>
    if c.toNat < 0x20 ∨ c = '\\' then none
    else do
      let (ps, rest) ← pieces rest
      pure (.char c :: ps, rest)

/-- Put the characters of a string together. A unit that is the first half of a pair must be
followed by a second half, which cannot stand alone. -/
def assemble : List Piece → Option (List Char)
  | [] => some []
  | .char c :: ps => (assemble ps).map (c :: ·)
  | .unit high :: ps =>
    if high < 0xD800 ∨ 0xE000 ≤ high then
      (assemble ps).map (Char.ofNat high :: ·)
    else if high < 0xDC00 then
      match ps with
      | .unit low :: ps =>
        if 0xDC00 ≤ low ∧ low < 0xE000 then
          (assemble ps).map (Char.ofNat (0x10000 + (high - 0xD800) * 0x400 + (low - 0xDC00)) :: ·)
        else
          none
      | _ => none
    else
      none

/-- The string of its pieces. -/
def ofPieces (ps : List Piece) : Token :=
  match assemble ps with
  | some cs => .string (String.ofList cs)
  | none => .unreadable

/-- Read the digits before the point: a zero, or digits that do not begin with one. -/
def readWhole : List Char → Option (List Char × List Char)
  | '0' :: rest =>
    match rest with
    | d :: _ => if d.isDigit then none else some (['0'], rest)
    | [] => some (['0'], rest)
  | cs => Text.readAllDigits cs

/-- Read a point and at least one digit after it, if there is a point. -/
def readFraction : List Char → Option (List Char × List Char)
  | '.' :: rest => Text.readAllDigits rest
  | cs => some ([], cs)

/-- Read an exponent, if there is one. -/
def readExponent (cs : List Char) : Option (Option (Bool × List Char) × List Char) :=
  match cs with
  | c :: rest =>
    if c = 'e' ∨ c = 'E' then
      let (negative, rest) := match rest with
        | '-' :: rest => (true, rest)
        | '+' :: rest => (false, rest)
        | _ => (false, rest)
      (Text.readAllDigits rest).map fun (ds, rest) => (some (negative, ds), rest)
    else
      some (none, cs)
  | [] => some (none, cs)

/-- Read a number, with its sign already read. -/
def readNumeral (negative : Bool) (cs : List Char) : Option (Numeral × List Char) := do
  let (whole, cs) ← readWhole cs
  let (fraction, cs) ← readFraction cs
  let (exponent, cs) ← readExponent cs
  pure ({ negative, whole, fraction, exponent }, cs)

/-- Read one token; the text does not begin with a blank. -/
def read (cs : List Char) : Option (Token × List Char) :=
  match cs with
  | '[' :: rest => some (.openBracket, rest)
  | ']' :: rest => some (.closeBracket, rest)
  | '\x7b' :: rest => some (.openBrace, rest)
  | '\x7d' :: rest => some (.closeBrace, rest)
  | ',' :: rest => some (.comma, rest)
  | ':' :: rest => some (.colon, rest)
  | '"' :: rest => (pieces rest).map fun (ps, rest) => (ofPieces ps, rest)
  | '-' :: rest => (readNumeral true rest).map fun (n, rest) => (.number n, rest)
  | 'n' :: 'u' :: 'l' :: 'l' :: rest => some (.null, rest)
  | 't' :: 'r' :: 'u' :: 'e' :: rest => some (.bool true, rest)
  | 'f' :: 'a' :: 'l' :: 's' :: 'e' :: rest => some (.bool false, rest)
  | _ => (readNumeral false cs).map fun (n, rest) => (.number n, rest)

/-- Read all tokens of a text. A token has at least one character, so no more steps than characters
are needed. -/
def scanWithin : Nat → List Char → Option (List Token)
  | 0, cs => if cs.all isBlank then some [] else none
  | steps + 1, cs =>
    match cs.dropWhile isBlank with
    | [] => some []
    | cs => do
      let (token, rest) ← read cs
      pure (token :: (← scanWithin steps rest))

/-- The tokens of a text, if it consists of tokens and blanks. -/
def scan (text : String) : Option (List Token) :=
  scanWithin text.length text.toList

end Token

end SqlLowering.Json
