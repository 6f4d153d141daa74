/-!
# Date patterns with percent symbols

A date pattern of the host, such as `yyyy-MM-dd`, becomes one with percent symbols by 21
replacements over the whole text, one after the other. Each replaces its matches from left to
right; a match begins where the one before it has ended. A replacement of a single letter is
guarded: the letter must stand at the start of the text or after a character other than the
percent sign, so that the letters of symbols written by earlier replacements are left alone.
-/

namespace SqlLowering.Format

/-- What a replacement looks for. -/
inductive SymbolMatcher where
  /-- these characters -/
  | exactly (text : List Char)
  /-- at least `least` of these letters, and at most `most` if that is given -/
  | letters (among : List Char) (least : Nat) (most : Option Nat)
deriving DecidableEq

/-- The number of characters matched at the front of a text. -/
def SymbolMatcher.length? (m : SymbolMatcher) (cs : List Char) : Option Nat :=
  match m with
  | .exactly text => if text.isPrefixOf cs then some text.length else none
  | .letters among least most =>
    let run := (cs.takeWhile among.contains).length
    if least ≤ run then some (most.elim run (min run)) else none

/-- One replacement over a whole text. -/
structure SymbolRule where
  matcher : SymbolMatcher
  /-- Match only at the start of the text or after a character other than the percent sign, which is
  then kept. -/
  guarded : Bool := false
  output : List Char

namespace SymbolRule

/-- A match at the front of a text: the characters kept before the output, and how many characters
the match takes up in all. -/
def matchAt (rule : SymbolRule) (atStart : Bool) (cs : List Char) : Option (List Char × Nat) :=
  if rule.guarded then
    match (if atStart then rule.matcher.length? cs else none) with
    | some n => some ([], n)
    | none =>
      match cs with
      | c :: rest =>
        if c = '%' then none else (rule.matcher.length? rest).map fun n => ([c], n + 1)
      | [] => none
  else
    (rule.matcher.length? cs).map fun n => ([], n)

/-- Replace the matches from left to right. The characters of a match still to be passed over are
counted by `skip`. -/
def replaceFrom (rule : SymbolRule) (atStart : Bool) (skip : Nat) : List Char → List Char
  | [] => []
  | c :: cs =>
    match skip with
    | n + 1 => rule.replaceFrom false n cs
    | 0 =>
      match rule.matchAt atStart (c :: cs) with
      | some (kept, n) => kept ++ rule.output ++ rule.replaceFrom false (n - 1) cs
      | none => c :: rule.replaceFrom false 0 cs

/-- Replace all matches in a text. -/
def replaceAll (rule : SymbolRule) (cs : List Char) : List Char :=
  rule.replaceFrom true 0 cs

end SymbolRule

/-- The replacements, in order. -/
def symbolRules : List SymbolRule :=
  let run (among : String) (least : Nat) (most : Option Nat) (output : String) : SymbolRule :=
    { matcher := .letters among.toList least most, output := output.toList }
  let guarded (rule : SymbolRule) : SymbolRule := { rule with guarded := true }
  [ { matcher := .exactly "HH:mm:ss".toList, output := "%T".toList },
    run "yY" 4 none "%Y",
    run "yY" 2 (some 2) "%y",
    run "D" 1 (some 3) "%j",
    run "M" 4 none "%M",
    run "M" 3 (some 3) "%b",
    run "M" 2 (some 2) "%m",
    guarded (run "M" 1 (some 1) "%c"),
    run "d" 2 none "%d",
    guarded (run "d" 1 (some 1) "%e"),
    run "H" 2 none "%H",
    guarded (run "H" 1 (some 1) "%k"),
    run "h" 2 none "%h",
    guarded (run "h" 1 (some 1) "%l"),
    guarded (run "m" 2 none "%i"),
    guarded (run "s" 1 none "%s"),
    guarded (run "S" 1 none "%f"),
    guarded (run "a" 1 none "%p"),
    guarded (run "w" 1 none "%v"),
    run "E" 4 none "%W",
    run "E" 1 (some 3) "%a" ]

/-- The pattern with percent symbols. -/
def toSymbols (pattern : String) : String :=
  String.ofList (symbolRules.foldl (fun cs rule => rule.replaceAll cs) pattern.toList)

end SqlLowering.Format
