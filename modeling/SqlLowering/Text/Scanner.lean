import SqlLowering.Text.Digits

/-!
# Scanners

A scanner takes characters from the front of a text, or fails without taking any. An alternative
is tried from where the first one began. Repetition is bounded by the length of the text, which is
enough for a scanner that takes at least one character each time.
-/

namespace SqlLowering.Text

/-- Takes characters from the front of a text. -/
abbrev Scanner (α : Type) := StateT (List Char) Option α

namespace Scanner

variable {α : Type}

/-- A character with a property. -/
def satisfy (p : Char → Bool) : Scanner Char := do
  match ← get with
  | c :: rest =>
    if p c then
      set rest
      pure c
    else
      failure
  | [] => failure

/-- The given character. -/
def char (c : Char) : Scanner Unit := do
  let _ ← satisfy (· == c)

/-- The given characters. -/
def exactly : List Char → Scanner Unit
  | [] => pure ()
  | c :: cs => do
    char c
    exactly cs

/-- All characters with a property at the front, perhaps none. -/
def takeWhile (p : Char → Bool) : Scanner (List Char) := do
  let cs ← get
  set (cs.dropWhile p)
  pure (cs.takeWhile p)

/-- All characters with a property at the front, at least one. -/
def takeWhile1 (p : Char → Bool) : Scanner (List Char) := do
  match ← takeWhile p with
  | [] => failure
  | cs => pure cs

/-- The given scanner as often as it succeeds, at most so many times. -/
def manyWithin (s : Scanner α) : Nat → Scanner (List α)
  | 0 => pure []
  | steps + 1 => do
    match ← optional s with
    | some a => do
      let as ← manyWithin s steps
      pure (a :: as)
    | none => pure []

/-- The given scanner as often as it succeeds. -/
def many (s : Scanner α) : Scanner (List α) := do
  manyWithin s (← get).length

/-- The given scanner one or more times, with a divider in between. -/
def separated (s : Scanner α) (divider : Scanner Unit) : Scanner (List α) := do
  let a ← s
  let as ← many do
    divider
    s
  pure (a :: as)

/-- The end of the text. -/
def atEnd : Scanner Unit := do
  match ← get with
  | [] => pure ()
  | _ => failure

/-- Exactly so many digits, as a number. -/
def digits (count : Nat) : Scanner Nat := do
  let cs ← get
  let ds := cs.take count
  if ds.length = count ∧ ds.all Char.isDigit then
    set (cs.drop count)
    pure (ofDigits ds)
  else
    failure

/-- Read a whole text. -/
def parse? (s : Scanner α) (text : String) : Option α :=
  (StateT.run (do let a ← s; atEnd; pure a) text.toList).map (·.1)

end Scanner

end SqlLowering.Text
