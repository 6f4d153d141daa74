import Mathlib.Data.List.SplitBy
import SqlLowering.Proofs.Replacement

/-!
# Date patterns, run by run

Although a date pattern is turned into percent symbols by replacements over the whole text, what
becomes of it is decided locally. The text is cut at every clock `HH:mm:ss`, each part between two
clocks is cut into runs of one letter, and each run becomes its symbols whatever its neighbours are.

The proof follows the text as a list of pieces, one for each run and clock. No replacement reaches
over the end of a piece (`Piece.Stands`), so all of them together act on every piece separately
(`Piece.foldl_replaceAll_texts`), and it remains to see what becomes of a single run.

Main statement: `toSymbols_eq_symbolsByRuns`.
-/

namespace SqlLowering.Format

/-! ## The symbols of a pattern -/

/-- The letter as which a character counts in a run. Years may be written with both letters. -/
def symbolLetter (c : Char) : Char :=
  if c = 'Y' then 'y' else c

/-- Whether two neighbours belong to one run. -/
def sameLetter (a b : Char) : Bool :=
  symbolLetter a == symbolLetter b

def copies (n : Nat) (text : List Char) : List Char :=
  (List.replicate n text).flatten

/-- What a run of one letter becomes. -/
def runSymbols (run : List Char) : List Char :=
  let n := run.length
  match run.head?.map symbolLetter with
  | some 'y' => if 4 ≤ n then ['%', 'Y'] else copies (n / 2) ['%', 'y'] ++ run.drop (n / 2 * 2)
  | some 'D' => copies ((n + 2) / 3) ['%', 'j']
  | some 'M' =>
    if 4 ≤ n then ['%', 'M'] else if n = 3 then ['%', 'b'] else if n = 2 then ['%', 'm']
    else ['%', 'c']
  | some 'd' => if 2 ≤ n then ['%', 'd'] else ['%', 'e']
  | some 'H' => if 2 ≤ n then ['%', 'H'] else ['%', 'k']
  | some 'h' => if 2 ≤ n then ['%', 'h'] else ['%', 'l']
  | some 'm' => if 2 ≤ n then ['%', 'i'] else run
  | some 's' => ['%', 's']
  | some 'S' => ['%', 'f']
  | some 'a' => ['%', 'p']
  | some 'w' => ['%', 'v']
  | some 'E' => if 4 ≤ n then ['%', 'W'] else ['%', 'a']
  | _ => run

/-- The time of day in full, which has a symbol of its own. -/
def clock : List Char :=
  ['H', 'H', ':', 'm', 'm', ':', 's', 's']

/-- The parts of a text between the clocks in it, which are looked for from left to right. -/
def betweenClocks : List Char → List (List Char)
  | [] => [[]]
  | c :: cs =>
    if clock.isPrefixOf (c :: cs) then [] :: betweenClocks (cs.drop (clock.length - 1))
    else (betweenClocks cs).modifyHead (c :: ·)
termination_by cs => cs.length

/-- What a text without clocks becomes. -/
def segmentSymbols (segment : List Char) : List Char :=
  (segment.splitBy sameLetter).flatMap runSymbols

/-- What a whole pattern becomes. -/
def symbolsByRuns (cs : List Char) : List Char :=
  ['%', 'T'].intercalate ((betweenClocks cs).map segmentSymbols)

/-! ## The replacements -/

def clockRule : SymbolRule where
  matcher := .exactly clock
  output := ['%', 'T']

/-- The replacements after that of the clock. -/
def letterRules : List SymbolRule :=
  let run (among : List Char) (least : Nat) (most : Option Nat) (symbol : Char) : SymbolRule :=
    { matcher := .letters among least most, output := ['%', symbol] }
  let guarded (rule : SymbolRule) : SymbolRule := { rule with guarded := true }
  [ run ['y', 'Y'] 4 none 'Y',
    run ['y', 'Y'] 2 (some 2) 'y',
    run ['D'] 1 (some 3) 'j',
    run ['M'] 4 none 'M',
    run ['M'] 3 (some 3) 'b',
    run ['M'] 2 (some 2) 'm',
    guarded (run ['M'] 1 (some 1) 'c'),
    run ['d'] 2 none 'd',
    guarded (run ['d'] 1 (some 1) 'e'),
    run ['H'] 2 none 'H',
    guarded (run ['H'] 1 (some 1) 'k'),
    run ['h'] 2 none 'h',
    guarded (run ['h'] 1 (some 1) 'l'),
    guarded (run ['m'] 2 none 'i'),
    guarded (run ['s'] 1 none 's'),
    guarded (run ['S'] 1 none 'f'),
    guarded (run ['a'] 1 none 'p'),
    guarded (run ['w'] 1 none 'v'),
    run ['E'] 4 none 'W',
    run ['E'] 1 (some 3) 'a' ]

/-- The clock is replaced first, and then letters only. -/
theorem symbolRules_eq : symbolRules = clockRule :: letterRules := by
  simp [symbolRules, clockRule, clock, letterRules]

/-- None of the later replacements looks for a percent sign, so they leave symbols alone. -/
theorem isOfLetters_of_mem_letterRules : ∀ rule ∈ letterRules, rule.IsOfLetters := by
  decide

/-! ## Texts in pieces -/

/-- A part of the text on its way: a run of a letter, or what has become of it, or a symbol that
stands for no single letter. -/
structure Piece where
  letter? : Option Char
  text : List Char

namespace Piece

def replace (rule : SymbolRule) (p : Piece) : Piece :=
  { p with text := rule.replaceAll p.text }

/-- A replacement does not reach into the piece from its left, nor out of it to its right, unless
the neighbour were a run of the same letter. -/
def Stands (rule : SymbolRule) (p : Piece) : Prop :=
  p.text ≠ [] ∧
    (∀ c ∈ p.text.head?, c ∈ rule.letters → p.letter? = some (symbolLetter c)) ∧
    (rule.Closes p.text ∨ ∀ c ∈ rule.letters, p.letter? = some (symbolLetter c))

instance (rule : SymbolRule) (p : Piece) : Decidable (p.Stands rule) :=
  inferInstanceAs (Decidable (_ ∧ _ ∧ _))

/-- The pieces are not both runs of one letter. -/
def Apart (p q : Piece) : Prop :=
  ∀ letter, p.letter? = some letter → q.letter? ≠ some letter

def texts (ps : List Piece) : List Char :=
  ps.flatMap text

@[simp] theorem texts_cons (p : Piece) (ps : List Piece) : texts (p :: ps) = p.text ++ texts ps :=
  List.flatMap_cons

/-- One replacement acts on each piece separately. -/
theorem replaceAll_texts {rule : SymbolRule} (ofLetters : rule.IsOfLetters) {ps : List Piece}
    (stands : ∀ p ∈ ps, p.Stands rule) (apart : ps.IsChain Apart) :
    rule.replaceAll (texts ps) = texts (ps.map (replace rule)) := by
  induction ps with
  | nil => rfl
  | cons p ps ih =>
      have cut : rule.replaceAll (p.text ++ texts ps) =
          rule.replaceAll p.text ++ rule.replaceAll (texts ps) := by
        obtain ⟨-, -, closes | own⟩ := stands p List.mem_cons_self
        · exact ofLetters.replaceAll_append_of_closes closes
        · -- A match could go on only into a run of the same letter, and that is not the next piece.
          apply ofLetters.replaceAll_append_of_head
          cases ps with
          | nil =>
              intro c head
              cases head
          | cons q ps =>
              obtain ⟨nonempty, begins, -⟩ :=
                stands q (List.mem_cons_of_mem _ List.mem_cons_self)
              rw [texts_cons, List.head?_append_of_ne_nil _ nonempty]
              intro c head mem
              exact (List.isChain_cons_cons.mp apart).1 _ (own c mem) (begins c head mem)
      rw [texts_cons, cut, ih (fun q mem => stands q (List.mem_cons_of_mem _ mem)) apart.tail,
        List.map_cons, texts_cons]
      rfl

/-- The replacements, one after the other, turn the piece into this text, and it stands on its own
at each of them. -/
def Becomes : List SymbolRule → Piece → List Char → Prop
  | [], p, result => p.text = result
  | rule :: rules, p, result => p.Stands rule ∧ Becomes rules (p.replace rule) result

instance decidableBecomes : (rules : List SymbolRule) → (p : Piece) → (result : List Char) →
    Decidable (Becomes rules p result)
  | [], p, result => inferInstanceAs (Decidable (p.text = result))
  | rule :: rules, p, result =>
    have := decidableBecomes rules (p.replace rule) result
    inferInstanceAs (Decidable (_ ∧ _))

/-- All the replacements together act on each piece separately. -/
theorem foldl_replaceAll_texts {rules : List SymbolRule}
    (ofLetters : ∀ rule ∈ rules, rule.IsOfLetters) {ps : List Piece} {results : List (List Char)}
    (becomes : List.Forall₂ (Becomes rules) ps results) (apart : ps.IsChain Apart) :
    rules.foldl (fun cs rule => rule.replaceAll cs) (texts ps) = results.flatten := by
  induction rules generalizing ps with
  | nil =>
      have same : ps.map text = results := by
        rw [← List.forall₂_eq_eq_eq, List.forall₂_map_left_iff]
        exact becomes
      rw [List.foldl_nil, ← same]
      exact List.flatMap_def
  | cons rule rules ih =>
      obtain ⟨first, others⟩ := List.forall_mem_cons.mp ofLetters
      obtain ⟨stands, later⟩ := (List.forall₂_and_left ps results).mp becomes
      rw [← List.forall₂_map_left_iff] at later
      have kept : (ps.map (replace rule)).IsChain Apart := by
        rw [List.isChain_map]
        exact apart
      rw [List.foldl_cons, replaceAll_texts first stands apart, ih others later kept]

/-- Replacements that look for none of its characters leave a piece as it is. -/
theorem becomes_append {idle rules : List SymbolRule} {p : Piece} {result : List Char}
    (ofLetters : ∀ rule ∈ idle, rule.IsOfLetters)
    (absent : ∀ rule ∈ idle, ∀ c ∈ p.text, c ∉ rule.letters)
    (last : ∃ c ∈ p.text.getLast?, c ≠ '%') (becomes : Becomes rules p result) :
    Becomes (idle ++ rules) p result := by
  induction idle with
  | nil => exact becomes
  | cons rule idle ih =>
      obtain ⟨first, others⟩ := List.forall_mem_cons.mp ofLetters
      obtain ⟨here, later⟩ := List.forall_mem_cons.mp absent
      have same : p.replace rule = p := by
        rw [replace, first.replaceAll_of_not_mem here]
      refine ⟨⟨?_, ?_, .inl ?_⟩, ?_⟩
      · rintro empty
        simp [empty] at last
      · intro c head mem
        exact absurd mem (here c (List.mem_of_mem_head? head))
      · obtain ⟨c, mem, ne⟩ := last
        exact ⟨c, mem, ne, .inl (here c (List.mem_of_mem_getLast? mem))⟩
      · rw [same]
        exact ih others later

end Piece

/-! ## What becomes of a run -/

/-- The ways to write a letter. -/
def spellings (letter : Char) : List Char :=
  if letter = 'y' then ['y', 'Y'] else [letter]

/-- The ways to write a letter are the characters that count as it. -/
theorem mem_spellings_symbolLetter {c d : Char} :
    d ∈ spellings (symbolLetter c) ↔ symbolLetter d = symbolLetter c := by
  grind [spellings, symbolLetter]

/-- The letters of the replacements. -/
def symbolLetters : List Char :=
  ['y', 'D', 'M', 'd', 'H', 'h', 'm', 's', 'S', 'a', 'w', 'E']

/-- A replacement looks for no other letters than these. -/
theorem symbolLetter_mem_symbolLetters :
    ∀ rule ∈ letterRules, ∀ c ∈ rule.letters, symbolLetter c ∈ symbolLetters := by
  decide

open Piece

/-- Short runs, in all the ways to write them. -/
theorem becomes_of_short : ∀ letter ∈ symbolLetters, ∀ a ∈ spellings letter,
    Becomes letterRules ⟨some letter, [a]⟩ (runSymbols [a]) ∧ ∀ b ∈ spellings letter,
      Becomes letterRules ⟨some letter, [a, b]⟩ (runSymbols [a, b]) ∧ ∀ c ∈ spellings letter,
        Becomes letterRules ⟨some letter, [a, b, c]⟩ (runSymbols [a, b, c]) := by
  decide +kernel

/-- The replacement at this place is the first to look for the letter. It takes a run of four or
more as a whole, and the later ones leave its output alone. -/
def Settles (i : Nat) (letter : Char) (symbol : List Char) : Prop :=
  ∃ rule ∈ letterRules[i]?,
    (∃ least ≤ 4, rule.matcher = .letters (spellings letter) least none) ∧
    rule.output = symbol ∧
    (∀ earlier ∈ letterRules.take i, ∀ c ∈ spellings letter, c ∉ earlier.letters) ∧
    Becomes (letterRules.drop (i + 1)) ⟨some letter, symbol⟩ symbol

instance (i : Nat) (letter : Char) (symbol : List Char) : Decidable (Settles i letter symbol) :=
  inferInstanceAs (Decidable (∃ rule ∈ letterRules[i]?, _))

/-- Every letter but that of the day of the year is settled by a single replacement, once there are
four of it. -/
theorem exists_settles : ∀ letter ∈ symbolLetters, letter ≠ 'D' →
    ∃ i < letterRules.length, Settles i letter (runSymbols (List.replicate 4 letter)) := by
  decide +kernel

/-- A run of a letter other than the percent sign. -/
structure IsRun (letter : Char) (run : List Char) : Prop where
  ne_nil : run ≠ []
  same : ∀ c ∈ run, symbolLetter c = letter
  plain : '%' ∉ run

namespace IsRun

variable {letter : Char} {run : List Char} (h : IsRun letter run)
include h

/-- The first character of a run tells its letter. -/
theorem head?_map : run.head?.map symbolLetter = some letter := by
  obtain ⟨c, cs, rfl⟩ := List.exists_cons_of_ne_nil h.ne_nil
  exact congrArg some (h.same c List.mem_cons_self)

/-- Since a run has a character that counts as its letter, the ways to write it are those that count
as it. -/
theorem mem_spellings_iff {c : Char} : c ∈ spellings letter ↔ symbolLetter c = letter := by
  obtain ⟨d, cs, rfl⟩ := List.exists_cons_of_ne_nil h.ne_nil
  rw [← h.same d List.mem_cons_self]
  exact mem_spellings_symbolLetter

theorem mem_spellings {c : Char} (mem : c ∈ run) : c ∈ spellings letter :=
  h.mem_spellings_iff.mpr (h.same c mem)

/-- A run does not end with a percent sign, so a guarded replacement is ready after it. -/
theorem exists_getLast? : ∃ c ∈ run.getLast?, c ≠ '%' := by
  refine ⟨run.getLast h.ne_nil, List.getLast?_eq_some_getLast h.ne_nil, ?_⟩
  exact ne_of_mem_of_not_mem (List.getLast_mem h.ne_nil) h.plain

/-- The first replacement that looks for the letter does so in the whole run. -/
theorem stands {rule : SymbolRule} (letters : rule.letters = spellings letter) :
    Stands rule ⟨some letter, run⟩ := by
  have own : ∀ c ∈ rule.letters, some letter = some (symbolLetter c) := by
    intro c mem
    rw [h.mem_spellings_iff.mp (letters ▸ mem)]
  exact ⟨h.ne_nil, fun c _ mem => own c mem, .inr own⟩

/-- All that counts is what becomes of a run from the first replacement on that looks for its
letter. -/
theorem becomes_of_first {i : Nat} {rule : SymbolRule} {result : List Char}
    (place : letterRules[i]? = some rule) (letters : rule.letters = spellings letter)
    (earlier : ∀ other ∈ letterRules.take i, ∀ c ∈ spellings letter, c ∉ other.letters)
    (later : Becomes (letterRules.drop (i + 1)) (replace rule ⟨some letter, run⟩) result) :
    Becomes letterRules ⟨some letter, run⟩ result := by
  have split : letterRules.take i ++ rule :: letterRules.drop (i + 1) = letterRules := by
    obtain ⟨lt, rfl⟩ := List.getElem?_eq_some_iff.mp place
    rw [← List.drop_eq_getElem_cons lt, List.take_append_drop]
  rw [← split]
  refine becomes_append ?_ ?_ h.exists_getLast? ⟨h.stands letters, later⟩
  · exact fun other mem => isOfLetters_of_mem_letterRules other (List.mem_of_mem_take mem)
  · exact fun other mem c inRun => earlier other mem c (h.mem_spellings inRun)

/-- A long run is replaced as a whole where its letter is first looked for. -/
theorem becomes_of_settles {i : Nat} {symbol : List Char} (settles : Settles i letter symbol)
    (long : 4 ≤ run.length) : Becomes letterRules ⟨some letter, run⟩ symbol := by
  obtain ⟨rule, place, ⟨least, least_le, matcher⟩, rfl, earlier, later⟩ := settles
  have letters : rule.letters = spellings letter := by rw [SymbolRule.letters, matcher]
  have ofLetters := isOfLetters_of_mem_letterRules rule (List.mem_of_getElem? place)
  have replaced : rule.replaceAll run = rule.output := by
    rw [← letters] at matcher
    refine ofLetters.replaceAll_run matcher (fun c mem => ?_) (Nat.le_trans least_le long)
    rw [letters]
    exact h.mem_spellings mem
  apply h.becomes_of_first place letters earlier
  rw [replace, replaced]
  exact later

/-- From four letters on, the length of a run does not matter, except for the day of the year. -/
theorem runSymbols_of_long (known : letter ∈ symbolLetters) (ne : letter ≠ 'D')
    (long : 4 ≤ run.length) : runSymbols run = runSymbols (List.replicate 4 letter) := by
  have long' : 2 ≤ run.length := by omega
  have head := h.head?_map
  simp only [symbolLetters, List.mem_cons, List.not_mem_nil, or_false] at known
  rcases known with rfl | rfl | rfl | rfl | rfl | rfl | rfl | rfl | rfl | rfl | rfl | rfl <;>
    first
    | exact absurd rfl ne
    | (rw [runSymbols, head]; simp only [if_pos long, if_pos long']; rfl)

end IsRun

/-- The replacement of the day of the year, the only one that cuts a long run into several
matches. -/
def dayOfYearRule : SymbolRule where
  matcher := .letters ['D'] 1 (some 3)
  output := ['%', 'j']

/-- A run of days of the year becomes one symbol for every three letters begun, by induction on its
length. -/
theorem replaceAll_dayOfYearRule (n : Nat) :
    dayOfYearRule.replaceAll (List.replicate n 'D') = copies ((n + 2) / 3) ['%', 'j'] := by
  have ofLetters : dayOfYearRule.IsOfLetters := by decide
  rw [SymbolRule.replaceAll_eq_sweep ofLetters.isProper]
  induction n using Nat.strongRecOn with
  | ind n ih =>
      rcases Nat.eq_zero_or_pos n with rfl | pos
      · exact SymbolRule.sweep_nil true
      · have all : ∀ c ∈ List.replicate n 'D', c ∈ dayOfYearRule.letters := by
          intro c mem
          rw [List.eq_of_mem_replicate mem]
          decide
        have enough : 1 ≤ (List.replicate n 'D').length := by
          rw [List.length_replicate]
          exact pos
        have count : (n + 2) / 3 = (n - min n 3 + 2) / 3 + 1 := by omega
        rw [ofLetters.sweep_run rfl all enough, Option.elim_some, List.drop_replicate,
          List.length_replicate, count, copies, List.replicate_succ, List.flatten_cons]
        exact congrArg _ (ih _ (by omega))

/-- Only one replacement looks for the day of the year. -/
theorem IsRun.becomes_of_dayOfYear {run : List Char} (h : IsRun 'D' run) :
    Becomes letterRules ⟨some 'D', run⟩ (copies ((run.length + 2) / 3) ['%', 'j']) := by
  have replicated : run = List.replicate run.length 'D' := by
    rw [List.eq_replicate_iff]
    exact ⟨rfl, fun c mem => List.mem_singleton.mp (h.mem_spellings mem)⟩
  have replaced : replace dayOfYearRule ⟨some 'D', run⟩ =
      ⟨some 'D', copies ((run.length + 2) / 3) ['%', 'j']⟩ := by
    rw [replace, ← replaceAll_dayOfYearRule, ← replicated]
  have place : letterRules[2]? = some dayOfYearRule := rfl
  apply h.becomes_of_first place rfl (by decide)
  rw [replaced, ← List.append_nil (letterRules.drop _)]
  -- The later replacements find nothing in the copies of the symbol.
  refine becomes_append ?_ ?_ ?_ rfl
  · exact fun rule mem => isOfLetters_of_mem_letterRules rule (List.mem_of_mem_drop mem)
  · have absent : ∀ rule ∈ letterRules.drop 3, ∀ c ∈ ['%', 'j'], c ∉ rule.letters := by decide
    intro rule mem c inCopies
    obtain ⟨symbol, copied, inSymbol⟩ := List.mem_flatten.mp inCopies
    rw [List.eq_of_mem_replicate copied] at inSymbol
    exact absent rule mem c inSymbol
  · have pos := List.length_pos_of_ne_nil h.ne_nil
    obtain ⟨n, count⟩ : ∃ n, (run.length + 2) / 3 = n + 1 :=
      ⟨(run.length + 2) / 3 - 1, by omega⟩
    refine ⟨'j', ?_, by decide⟩
    simp [copies, count, List.replicate_succ']

/-- A run of a letter that no replacement looks for stays as it is. -/
theorem IsRun.becomes_of_not_mem {letter : Char} {run : List Char} (h : IsRun letter run)
    (unknown : letter ∉ symbolLetters) : Becomes letterRules ⟨some letter, run⟩ run := by
  rw [← List.append_nil letterRules]
  refine becomes_append isOfLetters_of_mem_letterRules ?_ h.exists_getLast? rfl
  intro rule mem c inRun inLetters
  rw [← h.same c inRun] at unknown
  exact unknown (symbolLetter_mem_symbolLetters rule mem c inLetters)

/-- The table by which runs are read has no line for it either. -/
theorem IsRun.runSymbols_of_not_mem {letter : Char} {run : List Char} (h : IsRun letter run)
    (unknown : letter ∉ symbolLetters) : runSymbols run = run := by
  simp only [symbolLetters, List.mem_cons, List.not_mem_nil, or_false, not_or] at unknown
  rw [runSymbols, h.head?_map]
  split <;> simp_all

/-- Runs of up to three letters are finitely many. -/
theorem IsRun.becomes_of_length_lt {letter : Char} {run : List Char} (h : IsRun letter run)
    (known : letter ∈ symbolLetters) (short : run.length < 4) :
    Becomes letterRules ⟨some letter, run⟩ (runSymbols run) := by
  have shorts := becomes_of_short letter known
  have spelled := fun c => h.mem_spellings (c := c)
  rcases run with - | ⟨a, - | ⟨b, - | ⟨c, - | ⟨d, rest⟩⟩⟩⟩
  · exact absurd rfl h.ne_nil
  · exact (shorts a (spelled a (by simp))).1
  · exact ((shorts a (spelled a (by simp))).2 b (spelled b (by simp))).1
  · exact ((shorts a (spelled a (by simp))).2 b (spelled b (by simp))).2 c (spelled c (by simp))
  · simp only [List.length_cons] at short
    omega

/-- The replacements turn a run into its symbols. -/
theorem IsRun.becomes {letter : Char} {run : List Char} (h : IsRun letter run) :
    Becomes letterRules ⟨some letter, run⟩ (runSymbols run) := by
  by_cases known : letter ∈ symbolLetters
  · rcases Nat.lt_or_ge run.length 4 with short | long
    · exact h.becomes_of_length_lt known short
    · by_cases day : letter = 'D'
      · subst day
        have symbols : runSymbols run = copies ((run.length + 2) / 3) ['%', 'j'] := by
          rw [runSymbols, h.head?_map]
          rfl
        rw [symbols]
        exact h.becomes_of_dayOfYear
      · obtain ⟨i, -, settles⟩ := exists_settles letter known day
        rw [h.runSymbols_of_long known day long]
        exact h.becomes_of_settles settles long
  · rw [h.runSymbols_of_not_mem known]
    exact h.becomes_of_not_mem known

/-! ## The clocks -/

/-- There is always one more part than there are clocks. -/
theorem betweenClocks_ne_nil (cs : List Char) : betweenClocks cs ≠ [] := by
  fun_induction betweenClocks cs with
  | case1 => exact List.cons_ne_nil _ _
  | case2 c cs front ih => exact List.cons_ne_nil _ _
  | case3 c cs front ih => rwa [Ne, List.modifyHead_eq_nil_iff]

/-- The parts have no characters but those of the text. -/
theorem mem_of_mem_betweenClocks {cs segment : List Char} (mem : segment ∈ betweenClocks cs)
    {c : Char} (inSegment : c ∈ segment) : c ∈ cs := by
  fun_induction betweenClocks cs generalizing segment with
  | case1 => simp_all
  | case2 d cs front ih =>
      rcases List.mem_cons.mp mem with rfl | mem
      · cases inSegment
      · exact List.mem_cons_of_mem _ (List.mem_of_mem_drop (ih mem inSegment))
  | case3 d cs front ih =>
      obtain ⟨first, others, parts⟩ := List.exists_cons_of_ne_nil (betweenClocks_ne_nil cs)
      rw [parts] at mem ih
      rcases List.mem_cons.mp mem with rfl | mem
      · rcases List.mem_cons.mp inSegment with rfl | inFirst
        · exact List.mem_cons_self
        · exact List.mem_cons_of_mem _ (ih List.mem_cons_self inFirst)
      · exact List.mem_cons_of_mem _ (ih (List.mem_cons_of_mem _ mem) inSegment)

/-- The first replacement puts its symbol between the parts of the text. -/
theorem replaceAll_clockRule (cs : List Char) :
    clockRule.replaceAll cs = ['%', 'T'].intercalate (betweenClocks cs) := by
  have proper : clockRule.matcher.IsProper := by decide
  rw [SymbolRule.replaceAll_eq_sweep proper]
  fun_induction betweenClocks cs with
  | case1 => rw [SymbolRule.sweep_nil, List.intercalate_singleton]
  | case2 c cs front ih =>
      obtain ⟨first, others, parts⟩ :=
        List.exists_cons_of_ne_nil (betweenClocks_ne_nil (cs.drop (clock.length - 1)))
      have found : clockRule.matcher.length? (c :: cs) = some clock.length := if_pos front
      rw [SymbolRule.sweep_of_length?_eq_some proper found, parts, List.intercalate_cons_cons,
        ← parts, ← ih]
      rfl
  | case3 c cs front ih =>
      obtain ⟨first, others, parts⟩ := List.exists_cons_of_ne_nil (betweenClocks_ne_nil cs)
      have missing : clockRule.matcher.length? (c :: cs) = none := if_neg front
      rw [SymbolRule.sweep_of_length?_eq_none missing, SymbolRule.sweep_false_cons]
      change c :: clockRule.sweep true cs = _
      rw [ih, parts, List.modifyHead_cons]
      cases others with
      | nil => simp only [List.intercalate_singleton]
      | cons second others => simp only [List.intercalate_cons_cons, List.cons_append]

/-! ## The pieces of a pattern -/

/-- If neighbours count as the same letter, all characters do. -/
theorem symbolLetter_eq_of_isChain {c : Char} {cs : List Char}
    (chain : (c :: cs).IsChain fun a b => sameLetter a b) :
    ∀ d ∈ c :: cs, symbolLetter d = symbolLetter c := by
  induction cs generalizing c with
  | nil => simp
  | cons b cs ih =>
      obtain ⟨same, rest⟩ := List.isChain_cons_cons.mp chain
      have equal : symbolLetter c = symbolLetter b := eq_of_beq same
      intro d mem
      rcases List.mem_cons.mp mem with rfl | mem
      · rfl
      · rw [equal]
        exact ih rest d mem

/-- The letters of a run are all the same, so any of them tells its letter. -/
theorem head?_map_of_mem_splitBy {segment run : List Char} (mem : run ∈ segment.splitBy sameLetter)
    {c : Char} (inRun : c ∈ run) : run.head?.map symbolLetter = some (symbolLetter c) := by
  cases run with
  | nil => cases inRun
  | cons d run =>
      rw [symbolLetter_eq_of_isChain (List.isChain_of_mem_splitBy mem) c inRun]
      rfl

/-- Every piece of a text without percent signs is a run. -/
theorem isRun_of_mem_splitBy {segment run : List Char} (plain : '%' ∉ segment)
    (mem : run ∈ segment.splitBy sameLetter) :
    ∃ letter, run.head?.map symbolLetter = some letter ∧ IsRun letter run := by
  have nonempty := List.ne_nil_of_mem_splitBy mem
  refine ⟨symbolLetter (run.head nonempty),
    head?_map_of_mem_splitBy mem (List.head_mem nonempty), nonempty, ?_, ?_⟩
  · intro c inRun
    have first := head?_map_of_mem_splitBy mem (List.head_mem nonempty)
    rw [head?_map_of_mem_splitBy mem inRun] at first
    exact Option.some.inj first
  · intro percent
    apply plain
    rw [← List.flatten_splitBy sameLetter segment]
    exact List.mem_flatten.mpr ⟨run, mem, percent⟩

/-- To expand each character of a joined list is to expand the separator and the lists. -/
theorem flatMap_intercalate {α β : Type} (f : α → List β) (sep : List α) (lists : List (List α)) :
    (sep.intercalate lists).flatMap f = (sep.flatMap f).intercalate (lists.map (·.flatMap f)) := by
  induction lists with
  | nil => rfl
  | cons list lists ih =>
      cases lists with
      | nil => simp only [List.map_singleton, List.intercalate_singleton]
      | cons next lists =>
          rw [List.intercalate_cons_cons, List.flatMap_append, List.flatMap_append, ih]
          simp only [List.map_cons, List.intercalate_cons_cons]

namespace Piece

def ofRun (run : List Char) : Piece where
  letter? := run.head?.map symbolLetter
  text := run

def ofClock : Piece where
  letter? := none
  text := ['%', 'T']

def ofSegment (segment : List Char) : List Piece :=
  (segment.splitBy sameLetter).map ofRun

/-- The runs of all the parts of a text, with the clocks between them. -/
def ofSegments (segments : List (List Char)) : List Piece :=
  [ofClock].intercalate (segments.map ofSegment)

/-- Two runs in a row are of different letters, as a text is cut nowhere else. -/
theorem isChain_ofSegment (segment : List Char) : (ofSegment segment).IsChain Apart := by
  rw [ofSegment, List.isChain_map]
  have borders := List.isChain_getLast_head_splitBy sameLetter segment
  refine borders.imp_of_mem_imp ?_
  rintro u v inLeft inRight ⟨leftNonempty, rightNonempty, differ⟩ letter left right
  rw [ofRun, head?_map_of_mem_splitBy inLeft (List.getLast_mem leftNonempty)] at left
  rw [ofRun, head?_map_of_mem_splitBy inRight (List.head_mem rightNonempty), ← left] at right
  exact ne_of_beq_false differ (Option.some.inj right).symm

/-- The same with clocks in between. -/
theorem isChain_ofSegments (segments : List (List Char)) :
    (ofSegments segments).IsChain Apart := by
  unfold ofSegments
  induction segments with
  | nil => exact .nil
  | cons segment segments ih =>
      cases segments with
      | nil =>
          rw [List.map_singleton, List.intercalate_singleton]
          exact isChain_ofSegment segment
      | cons next segments =>
          rw [List.map_cons, List.map_cons, List.intercalate_cons_cons, ← List.map_cons]
          -- A clock is no run, so it is apart from what stands on either side of it.
          have before (p : Piece) : Apart p ofClock := fun letter _ clock => by cases clock
          have after (p : Piece) : Apart ofClock p := fun letter clock => by cases clock
          rw [List.append_assoc, List.singleton_append, List.isChain_append, List.isChain_cons]
          refine ⟨isChain_ofSegment segment, ⟨fun p _ => after p, ih⟩, ?_⟩
          rintro p - _ ⟨⟩
          exact before p

/-- A piece is a clock or a run of one of the parts. -/
theorem mem_ofSegments {segments : List (List Char)} {p : Piece} (mem : p ∈ ofSegments segments) :
    p = ofClock ∨ ∃ segment ∈ segments, ∃ run ∈ segment.splitBy sameLetter, p = ofRun run := by
  unfold ofSegments at mem
  induction segments with
  | nil => cases mem
  | cons segment segments ih =>
      have here (inSegment : p ∈ ofSegment segment) :
          ∃ run ∈ segment.splitBy sameLetter, p = ofRun run := by
        obtain ⟨run, inSplit, rfl⟩ := List.mem_map.mp inSegment
        exact ⟨run, inSplit, rfl⟩
      cases segments with
      | nil =>
          rw [List.map_singleton, List.intercalate_singleton] at mem
          exact .inr ⟨segment, List.mem_cons_self, here mem⟩
      | cons next segments =>
          rw [List.map_cons, List.map_cons, List.intercalate_cons_cons, ← List.map_cons,
            List.mem_append, List.mem_append, List.mem_singleton] at mem
          rcases mem with (mem | rfl) | mem
          · exact .inr ⟨segment, List.mem_cons_self, here mem⟩
          · exact .inl rfl
          · rcases ih mem with isClock | ⟨other, inOthers, run⟩
            · exact .inl isClock
            · exact .inr ⟨other, List.mem_cons_of_mem _ inOthers, run⟩

/-- Pieces are mapped part by part. -/
theorem flatMap_ofSegments (f : List Char → List Char) (segments : List (List Char)) :
    (ofSegments segments).flatMap (fun p => f p.text) =
      (f ['%', 'T']).intercalate (segments.map fun s => (s.splitBy sameLetter).flatMap f) := by
  rw [ofSegments, flatMap_intercalate, List.map_map, List.flatMap_singleton]
  refine congrArg _ (List.map_congr_left fun segment _ => ?_)
  exact List.flatMap_map _ _ _

/-- The pieces make up the text after the first replacement. -/
theorem texts_ofSegments (segments : List (List Char)) :
    texts (ofSegments segments) = ['%', 'T'].intercalate segments := by
  have whole (segment : List Char) : (segment.splitBy sameLetter).flatMap id = segment := by
    rw [List.flatMap_id, List.flatten_splitBy]
  have pieces := flatMap_ofSegments id segments
  simp only [whole, List.map_id'] at pieces
  exact pieces

end Piece

/-- The replacements turn every piece of a text without percent signs into its symbols; that of a
clock already stands for itself. -/
theorem becomes_of_mem_ofSegments {segments : List (List Char)}
    (plain : ∀ segment ∈ segments, '%' ∉ segment) {p : Piece} (mem : p ∈ ofSegments segments) :
    Becomes letterRules p (runSymbols p.text) := by
  rcases mem_ofSegments mem with rfl | ⟨segment, inSegments, run, inSplit, rfl⟩
  · decide +kernel
  · obtain ⟨letter, first, isRun⟩ := isRun_of_mem_splitBy (plain segment inSegments) inSplit
    rw [ofRun, first]
    exact isRun.becomes

/-- The later replacements act on each part between the clocks separately, and on its runs. -/
theorem foldl_letterRules {segments : List (List Char)}
    (plain : ∀ segment ∈ segments, '%' ∉ segment) :
    letterRules.foldl (fun cs rule => rule.replaceAll cs) (['%', 'T'].intercalate segments) =
      ['%', 'T'].intercalate (segments.map segmentSymbols) := by
  have becomes : List.Forall₂ (Becomes letterRules) (ofSegments segments)
      ((ofSegments segments).map fun p => runSymbols p.text) := by
    rw [List.forall₂_map_right_iff, List.forall₂_same]
    exact fun p mem => becomes_of_mem_ofSegments plain mem
  rw [← texts_ofSegments, foldl_replaceAll_texts isOfLetters_of_mem_letterRules becomes
    (isChain_ofSegments segments), ← List.flatMap_def, flatMap_ofSegments]
  rfl

/-- For every pattern without a percent sign, the replacements over the whole text give what cutting
it at its clocks and into runs gives. -/
theorem toSymbols_eq_symbolsByRuns (pattern : String) (plain : '%' ∉ pattern.toList) :
    toSymbols pattern = String.ofList (symbolsByRuns pattern.toList) := by
  have parts : ∀ segment ∈ betweenClocks pattern.toList, '%' ∉ segment :=
    fun segment mem percent => plain (mem_of_mem_betweenClocks mem percent)
  rw [toSymbols, symbolRules_eq, List.foldl_cons, replaceAll_clockRule, foldl_letterRules parts,
    symbolsByRuns]

/-- Of the hours, minutes and seconds the clock leaves an hour before it and a second after it, and
both spellings of a year count in one run. -/
theorem toSymbols_eq_symbolsByRuns_of_clock_in_runs :
    '%' ∉ "yYy DDDD HHH:mm:sss MMmm".toList ∧
      toSymbols "yYy DDDD HHH:mm:sss MMmm" = "%yy %j%j %k%T%s %m%i" := by
  have plain : '%' ∉ "yYy DDDD HHH:mm:sss MMmm".toList := by decide +kernel
  refine ⟨plain, ?_⟩
  rw [toSymbols_eq_symbolsByRuns _ plain]
  decide +kernel

end SqlLowering.Format
