/-!
# Binary floating-point numbers

A double or single precision number is kept as its bit pattern, so that equality is equality of bits
and the sign of zero is not lost. `Reading` is what a pattern denotes: a finite number is a natural
mantissa times a power of two.
-/

namespace SqlLowering.Number

/-- A double precision number, by its bits. -/
structure Binary64 where
  bits : UInt64
deriving DecidableEq, Repr

/-- A single precision number, by its bits. -/
structure Binary32 where
  bits : UInt32
deriving DecidableEq, Repr

/-- A finite magnitude `mantissa * 2 ^ exponent`. The gap to the next number below is half of the
gap above when `narrowBelow` is set, which happens at the powers of two. -/
structure Magnitude where
  mantissa : Nat
  exponent : Int
  narrowBelow : Bool
deriving DecidableEq, Repr

/-- What a bit pattern denotes. -/
inductive Reading where
  | nan
  | infinite (negative : Bool)
  | finite (negative : Bool) (magnitude : Magnitude)
deriving DecidableEq, Repr

namespace Reading

/-- Read a pattern of one sign bit, `exponentBits` of biased exponent and `fractionBits` of
fraction. -/
def ofBits (exponentBits fractionBits bits : Nat) : Reading :=
  let unit := Nat.pow 2 fractionBits
  let range := Nat.pow 2 exponentBits
  let negative := bits / (unit * range) % 2 == 1
  let biased := bits / unit % range
  let fraction := bits % unit
  let least : Int := 2 - (range / 2 : Nat) - fractionBits
  if biased + 1 = range then
    if fraction = 0 then .infinite negative else .nan
  else if biased = 0 then
    .finite negative ⟨fraction, least, false⟩
  else
    .finite negative
      ⟨unit + fraction, least + (biased - 1), fraction == 0 && 1 < biased⟩

end Reading

/-- What the bits of a double denote. -/
def Binary64.reading (x : Binary64) : Reading :=
  .ofBits 11 52 x.bits.toNat

/-- What the bits of a single denote. -/
def Binary32.reading (x : Binary32) : Reading :=
  .ofBits 8 23 x.bits.toNat

end SqlLowering.Number
