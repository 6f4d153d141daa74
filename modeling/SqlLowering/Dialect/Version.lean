import SqlLowering.Text.Blank
import SqlLowering.Text.Digits
import SqlLowering.Text.Split

/-!
# Versions of the dialect

A version has three parts of 32 bits, compared from left to right. Its text may leave out the later
parts, which are then zero, and may have blanks around it.
-/

namespace SqlLowering.Dialect

open SqlLowering

/-- A version of the target dialect. -/
structure Version where
  major : UInt32
  minor : UInt32
  patch : UInt32
deriving DecidableEq, Repr

namespace Version

/-- The newest version known here. -/
def latest : Version := ⟨8, 5, 0⟩

/-- The order from left to right. -/
def le (a b : Version) : Bool :=
  a.major < b.major ||
    (a.major == b.major && (a.minor < b.minor || (a.minor == b.minor && a.patch ≤ b.patch)))

instance : LE Version where
  le a b := a.le b = true

instance (a b : Version) : Decidable (a ≤ b) :=
  inferInstanceAs (Decidable (_ = true))

/-- The text with all three parts. -/
def text (v : Version) : String :=
  Text.natText v.major.toNat ++ "." ++ Text.natText v.minor.toNat ++ "." ++
    Text.natText v.patch.toNat

/-- One part of a version text: digits of a number below `2 ^ 32`, perhaps after a plus sign. -/
def part? (cs : List Char) : Option UInt32 :=
  ((Text.unsigned? cs).filter (· < UInt32.size)).map UInt32.ofNat

/-- Read a version of one to three parts. -/
def parse? (text : String) : Option Version :=
  match Text.splitAt '.' (Text.trimBlanks text.toList) with
  | [a] => do pure ⟨← part? a, 0, 0⟩
  | [a, b] => do pure ⟨← part? a, ← part? b, 0⟩
  | [a, b, c] => do pure ⟨← part? a, ← part? b, ← part? c⟩
  | _ => none

end Version

end SqlLowering.Dialect
