import SqlLowering.Calendar.Date
import SqlLowering.Text.Scanner
import SqlLowering.Toml.Basic

/-!
# Scalars and keys of TOML

Strings of the four kinds, numbers, points in time and keys. Control characters other than the tab
may not stand in a text, and a line may end with a line feed alone or after a carriage return.
-/

namespace SqlLowering.Toml.Read

open Text Text.Scanner

/-- A blank inside a line. -/
def isBlank (c : Char) : Bool :=
  c == ' ' || c == '\t'

/-- A character that may stand in a comment or a string: no control character but the tab. -/
def isText (c : Char) : Bool :=
  c == '\t' || (0x20 ≤ c.toNat && c.toNat != 0x7F)

/-- Blanks inside a line. -/
def blanks : Scanner Unit := do
  let _ ← takeWhile isBlank

/-- The end of a line. -/
def newline : Scanner Unit :=
  char '\n' <|> exactly ['\r', '\n']

/-- A comment up to the end of its line. -/
def comment : Scanner Unit := do
  char '#'
  let _ ← takeWhile isText

/-- A character given by so many hexadecimal digits. -/
def codePoint (count : Nat) : Scanner Char := do
  let hex (c : Char) : Option Nat :=
    if c.isDigit then some (c.toNat - '0'.toNat)
    else if 'a' ≤ c ∧ c ≤ 'f' then some (c.toNat - 'a'.toNat + 10)
    else if 'A' ≤ c ∧ c ≤ 'F' then some (c.toNat - 'A'.toNat + 10)
    else none
  let cs ← get
  match (cs.take count).mapM hex with
  | some ds =>
    let n := ds.foldl (fun n d => n * 16 + d) 0
    if ds.length = count ∧ n.isValidChar then
      set (cs.drop count)
      pure (Char.ofNat n)
    else
      failure
  | none => failure

/-- The character of an escape sequence, after the backslash. -/
def escape : Scanner Char := do
  match ← satisfy fun _ => true with
  | 'b' => pure '\x08'
  | 't' => pure '\t'
  | 'n' => pure '\n'
  | 'f' => pure '\x0c'
  | 'r' => pure '\r'
  | '"' => pure '"'
  | '\\' => pure '\\'
  | 'u' => codePoint 4
  | 'U' => codePoint 8
  | _ => failure

/-- A string on one line in double quotes, with escape sequences. -/
def basicString : Scanner String := do
  char '"'
  let cs ← many <|
    satisfy (fun c => isText c && c != '"' && c != '\\') <|> do
      char '\\'
      escape
  char '"'
  pure (String.ofList cs)

/-- A string on one line in single quotes, taken as it is. -/
def literalString : Scanner String := do
  char '\''
  let cs ← takeWhile fun c => isText c && c != '\''
  char '\''
  pure (String.ofList cs)

/-- A backslash at the end of a line, which joins the line with the next text. -/
def joinedLines : Scanner (List Char) := do
  char '\\'
  blanks
  newline
  let _ ← many (newline <|> do let _ ← takeWhile1 isBlank)
  pure []

/-- One or two quotes that do not end a string over several lines. -/
def innerQuotes (quote : Char) : Scanner (List Char) := do
  let quotes := (← get).takeWhile (· == quote)
  if quotes.length < 3 then
    if quotes = [] then failure
    exactly quotes
    pure quotes
  else
    failure

/-- Three quotes that end a string, with up to two more that belong to it. -/
def closingQuotes (quote : Char) : Scanner (List Char) := do
  let count := ((← get).takeWhile (· == quote)).length
  let inner := List.replicate (min (count - 3) 2) quote
  exactly inner
  exactly [quote, quote, quote]
  pure inner

/-- A string over several lines in three double quotes. A line break right after the opening
quotes is dropped, and others are read as line feeds. -/
def multilineBasicString : Scanner String := do
  exactly ['"', '"', '"']
  let _ ← optional newline
  let parts ← many <|
    takeWhile1 (fun c => isText c && c != '"' && c != '\\') <|>
    (do newline; pure ['\n']) <|>
    joinedLines <|>
    (do char '\\'; pure [← escape]) <|>
    innerQuotes '"'
  let inner ← closingQuotes '"'
  pure (String.ofList (parts.flatten ++ inner))

/-- A string over several lines in three single quotes, taken as it is but for line breaks. -/
def multilineLiteralString : Scanner String := do
  exactly ['\'', '\'', '\'']
  let _ ← optional newline
  let parts ← many <|
    takeWhile1 (fun c => isText c && c != '\'') <|>
    (do newline; pure ['\n']) <|>
    innerQuotes '\''
  let inner ← closingQuotes '\''
  pure (String.ofList (parts.flatten ++ inner))

/-- A string of any kind. -/
def anyString : Scanner String :=
  multilineBasicString <|> basicString <|> multilineLiteralString <|> literalString

/-- One part of a key: bare, or a string on one line. -/
def keyPart : Scanner String :=
  basicString <|> literalString <|> do
    let cs ← takeWhile1 fun c => c.isAlphanum || c == '_' || c == '-'
    pure (String.ofList cs)

/-- The greatest number of parts of a key, and of arrays and tables inside each other. -/
def nesting : Nat := 79

/-- A key of one or more parts with points between them: the path to its table, and its last part.
-/
def key : Scanner (List String × String) := do
  let parts ← separated (do blanks; let part ← keyPart; blanks; pure part) (char '.')
  if nesting < parts.length then failure
  match parts.getLast? with
  | some last => pure (parts.dropLast, last)
  | none => failure

/-- Digits of a base with single underscores between them. -/
def digitsOf (isDigit : Char → Bool) : Scanner (List Char) := do
  let groups ← separated (takeWhile1 isDigit) (char '_')
  pure groups.flatten

/-- A sign, if there is one. -/
def sign : Scanner (Option Char) :=
  optional (satisfy fun c => c == '+' || c == '-')

/-- The digits of a decimal integer: a zero, or digits that do not begin with one. -/
def wholeDigits : Scanner (List Char) := do
  match (← get).head? with
  | some '0' => do
    char '0'
    pure ['0']
  | _ => digitsOf Char.isDigit

/-- `2 ^ 63`, the size from which on a positive integer does not fit into 64 bits. -/
def signedBound : Nat := 9223372036854775808

/-- A decimal integer of 64 bits. -/
def decimalInteger : Scanner Toml := do
  let sign ← sign
  let size := ofDigits (← wholeDigits)
  let fits := if sign = some '-' then size ≤ signedBound else size < signedBound
  if fits then pure .integer else failure

/-- An integer of 64 bits in the base of its mark. -/
def markedInteger (mark : Char) (isDigit : Char → Bool) (value : List Char → Nat) :
    Scanner Toml := do
  exactly ['0', mark]
  if value (← digitsOf isDigit) < signedBound then pure .integer else failure

/-- An integer. -/
def integer : Scanner Toml :=
  let isHex (c : Char) : Bool := c.isDigit || ('a' ≤ c && c ≤ 'f') || ('A' ≤ c && c ≤ 'F')
  let hexValue (ds : List Char) : Nat :=
    ds.foldl (fun n c => n * 16 + if c.isDigit then c.toNat - '0'.toNat
      else c.toLower.toNat - 'a'.toNat + 10) 0
  markedInteger 'x' isHex hexValue <|>
  markedInteger 'o' (fun c => '0' ≤ c && c ≤ '7') (Nat.ofDigitChars 8 · 0) <|>
  markedInteger 'b' (fun c => c == '0' || c == '1') (Nat.ofDigitChars 2 · 0) <|>
  decimalInteger

/-- Half a unit above the greatest double: from here on a positive number is infinite. -/
def infinityFrom : Nat := Nat.pow 2 1024 - Nat.pow 2 970

/-- A decimal fraction `digits * 10 ^ power` reaches the range where doubles are infinite. -/
def isInfinite (digits : List Char) (power : Int) : Bool :=
  let size := ofDigits digits
  let lead : Int := (Text.digits size).length + power
  if size = 0 ∨ lead < 300 then false
  else if 320 < lead then true
  else infinityFrom * Nat.pow 10 (-power).toNat ≤ size * Nat.pow 10 power.toNat

/-- The exponent of a float. -/
def exponent : Scanner Int := do
  let _ ← satisfy fun c => c == 'e' || c == 'E'
  let sign ← sign
  let size := ofDigits (← digitsOf Char.isDigit)
  pure (if sign = some '-' then -(size : Int) else size)

/-- A float: a name, or digits with a fraction, an exponent or both. A positive one must be
finite. -/
def float : Scanner Toml := do
  let sign ← sign
  (do exactly "inf".toList; pure .float) <|>
  (do exactly "nan".toList; pure .float) <|>
  (do
    let whole ← wholeDigits
    let fraction ← optional do
      char '.'
      digitsOf Char.isDigit
    let power ← optional exponent
    if fraction.isNone ∧ power.isNone then failure
    let fraction := fraction.getD []
    if sign ≠ some '-' ∧ isInfinite (whole ++ fraction) (power.getD 0 - fraction.length) then
      failure
    pure .float)

/-- A truth value. -/
def boolean : Scanner Toml := do
  exactly "true".toList <|> exactly "false".toList
  pure .boolean

/-- The characters of a date. -/
def date : Scanner (List Char) := do
  let year ← digits 4
  char '-'
  let month ← digits 2
  char '-'
  let day ← digits 2
  match Calendar.Date.ofParts? year month day with
  | some d => pure d.chars
  | none => failure

/-- The fraction of a second in normal spelling: at most nine digits, without zeros at the end. -/
def secondFraction : Scanner (List Char) := do
  char '.'
  let ds ← takeWhile1 Char.isDigit
  match ((ds.take 9).reverse.dropWhile (· == '0')).reverse with
  | [] => pure []
  | kept => pure ('.' :: kept)

/-- The characters of a time of day. -/
def time : Scanner (List Char) := do
  let hour ← digits 2
  char ':'
  let minute ← digits 2
  char ':'
  let second ← digits 2
  let fraction ← optional secondFraction
  if hour < 24 ∧ minute < 60 ∧ second ≤ 60 then
    pure (padded 2 hour ++ ':' :: padded 2 minute ++ ':' :: padded 2 second ++ fraction.getD [])
  else
    failure

/-- The characters of an offset from universal time. -/
def zone : Scanner (List Char) :=
  (do
    let _ ← satisfy fun c => c == 'Z' || c == 'z'
    pure ['Z']) <|>
  (do
    let sign ← satisfy fun c => c == '+' || c == '-'
    let hour ← digits 2
    char ':'
    let minute ← digits 2
    let sign := if hour = 0 ∧ minute = 0 then '+' else sign
    if hour < 24 ∧ minute < 60 then
      pure (sign :: padded 2 hour ++ ':' :: padded 2 minute)
    else
      failure)

/-- A time of day after a date, with an optional zone. -/
def timeOfDate : Scanner (List Char) := do
  let _ ← satisfy fun c => c == 'T' || c == 't' || c == ' '
  let time ← time
  let zone ← optional zone
  pure ('T' :: time ++ zone.getD [])

/-- A date, a time of day, or both. -/
def datetime : Scanner Toml :=
  (do
    let date ← date
    let rest ← optional timeOfDate
    pure (.datetime (String.ofList (date ++ rest.getD [])))) <|>
  (do pure (.datetime (String.ofList (← time))))

/-- A value that holds no others. -/
def scalar : Scanner Toml :=
  (do pure (.string (← anyString))) <|> boolean <|> datetime <|> float <|> integer

end SqlLowering.Toml.Read
