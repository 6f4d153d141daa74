/-!
# Date patterns with specifiers

In this form of pattern the letters themselves are the specifiers, so the text is gone through once,
from left to right. Where letters of one class stand, as many of them as there are become one
specifier, and the search goes on behind them, so what has been written is not looked at again. The
letters `y` and `Y` are of one class. Characters that are no pattern letters stay as they are.
-/

namespace SqlLowering.Format

/-- The classes of pattern letters, in the order in which they are tried. -/
def runClasses : List (List Char) :=
  [['y', 'Y'], ['M'], ['E'], ['d'], ['D'], ['H'], ['h'], ['m'], ['s'], ['S'], ['a']]

/-- The number of letters in the run at the front of a text, by the first class with a letter
there. -/
def runLength? (cs : List Char) : Option Nat :=
  runClasses.findSome? fun letters =>
    let length := (cs.takeWhile letters.contains).length
    if 0 < length then some length else none

/-- The letter under which a pattern letter is grouped. -/
def runLetter? (c : Char) : Option Char :=
  if c = 'Y' then some 'y'
  else if "yMEdDHhmsSa".toList.contains c then some c
  else none

/-- The specifier for runs of a letter with a length in some range. -/
structure SpecifierRule where
  letter : Char
  least : Nat
  /-- the greatest length, if there is one -/
  most : Option Nat
  output : String
deriving DecidableEq

/-- The length of a run lies in the range. -/
def SpecifierRule.admits (rule : SpecifierRule) (length : Nat) : Bool :=
  rule.least ≤ length && rule.most.all (length ≤ ·)

/-- The specifiers by letter and length. -/
def specifierRules : List SpecifierRule :=
  [ ⟨'y', 4, none, "YYYY"⟩,
    ⟨'y', 1, some 3, "YY"⟩,
    ⟨'M', 4, none, "MONTH"⟩,
    ⟨'M', 3, some 3, "MON"⟩,
    ⟨'M', 1, some 2, "MM"⟩,
    ⟨'E', 4, none, "DAY"⟩,
    ⟨'E', 1, some 3, "DY"⟩,
    ⟨'d', 1, none, "DD"⟩,
    ⟨'D', 1, none, "DDD"⟩,
    ⟨'H', 1, none, "HH24"⟩,
    ⟨'h', 1, none, "HH12"⟩,
    ⟨'m', 1, none, "MI"⟩,
    ⟨'s', 1, none, "SS"⟩,
    ⟨'S', 1, none, "FF6"⟩,
    ⟨'a', 1, none, "AM"⟩ ]

/-- The specifier for a run of a letter, by the first rule for it. -/
def specifier? (letter : Char) (length : Nat) : Option String :=
  (specifierRules.find? fun rule => rule.letter == letter && rule.admits length).map (·.output)

/-- What a run becomes. -/
def runText (run : List Char) : List Char :=
  match run with
  | [] => []
  | c :: _ =>
    match (runLetter? c).bind (specifier? · run.length) with
    | some specifier => specifier.toList
    | none => run

/-- Replace the runs from left to right. The letters of a run still to be passed over are counted by
`skip`. -/
def replaceRuns (skip : Nat) : List Char → List Char
  | [] => []
  | c :: cs =>
    match skip with
    | n + 1 => replaceRuns n cs
    | 0 =>
      match runLength? (c :: cs) with
      | some n => runText ((c :: cs).take n) ++ replaceRuns (n - 1) cs
      | none => c :: replaceRuns 0 cs

/-- The pattern with specifiers. -/
def toSpecifiers (pattern : String) : String :=
  String.ofList (replaceRuns 0 pattern.toList)

end SqlLowering.Format
