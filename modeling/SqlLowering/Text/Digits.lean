/-!
# Decimal digits

Numbers are written with the ASCII digits, without leading zeros unless a width is asked for.
Reading takes digits from the front of a text and hands back what follows them.
-/

namespace SqlLowering.Text

/-- The decimal digits of a natural number, most significant first. -/
def digits (n : Nat) : List Char :=
  Nat.toDigits 10 n

/-- The natural number that a list of digits denotes; the empty list denotes zero. -/
def ofDigits (cs : List Char) : Nat :=
  Nat.ofDigitChars 10 cs 0

/-- Reading the digits of a number gives the number back. -/
@[simp] theorem ofDigits_digits (n : Nat) : ofDigits (digits n) = n :=
  Nat.ofDigitChars_ten_toDigits

/-- The digits of a number, filled up with zeros in front to at least `width` places. -/
def padded (width n : Nat) : List Char :=
  List.replicate (width - (digits n).length) '0' ++ digits n

/-- The decimal text of a natural number. -/
def natText (n : Nat) : String :=
  String.ofList (digits n)

/-- The decimal text of an integer, with a minus sign when it is negative. -/
def intText (i : Int) : String :=
  if i < 0 then "-" ++ natText i.natAbs else natText i.natAbs

/-- Read at least one and at most `most` digits from the front. -/
def readDigits (most : Nat) (cs : List Char) : Option (List Char × List Char) :=
  match (cs.take most).takeWhile Char.isDigit with
  | [] => none
  | ds => some (ds, cs.drop ds.length)

/-- Read all digits at the front, at least one of them. -/
def readAllDigits (cs : List Char) : Option (List Char × List Char) :=
  readDigits cs.length cs

/-- Read a number of at least one and at most `most` digits. -/
def readNat (most : Nat) (cs : List Char) : Option (Nat × List Char) :=
  (readDigits most cs).map fun (ds, rest) => (ofDigits ds, rest)

/-- Read the given character. -/
def readChar (c : Char) : List Char → Option (List Char)
  | d :: rest => if d = c then some rest else none
  | [] => none

/-- The number denoted by a whole text of one or more digits, with an optional plus sign in front.
-/
def unsigned? (cs : List Char) : Option Nat :=
  let ds := match cs with
    | '+' :: rest => rest
    | _ => cs
  if ds ≠ [] ∧ ds.all Char.isDigit then some (ofDigits ds) else none

end SqlLowering.Text
