import Mathlib.Data.List.SplitBy
import Mathlib.Data.List.TakeWhile
import SqlLowering.Proofs.Replacement
import SqlLowering.Format.Specifier

/-!
# Specifiers, run by run

In a pattern with specifiers every run of letters of one class is converted by itself. The classes
of letters and the table of lengths are two separate lists, and here they are seen to fit: for each
class the ranges of lengths in the table begin with one, leave no gap and do not overlap, so a run
of any length has exactly one line of the table. What is written for a run is not looked at again,
although it consists of pattern letters, because the search goes on behind the run. It takes as many
letters as there are, so the text is cut where two neighbours are of different classes and nowhere
else (`replaceRuns_eq_flatMap_splitBy`).

Main statement: `toSpecifiers_by_runs`.
-/

namespace SqlLowering.Format

/-- Two letters are of one class. -/
def SameClass (a b : Char) : Prop :=
  ∃ letters ∈ runClasses, a ∈ letters ∧ b ∈ letters

/-- Two neighbours belong to one run. -/
def sameRun (a b : Char) : Bool :=
  (runLetter? a).isSome && runLetter? a == runLetter? b

/-! ## Classes of letters -/

/-- All letters of a class are counted as the first of them. -/
theorem runLetter?_of_mem :
    ∀ letters ∈ runClasses, ∀ c ∈ letters, runLetter? c = letters.head? := by
  decide

/-- The first letter tells the class. -/
theorem eq_of_head?_eq : ∀ first ∈ runClasses, ∀ second ∈ runClasses,
    first.head? = second.head? → first = second := by
  decide

/-- A character that counts as some letter is in a class, which has that letter first. -/
theorem exists_class_of_runLetter? {c letter : Char} (known : runLetter? c = some letter) :
    ∃ letters ∈ runClasses, c ∈ letters ∧ letters.head? = some letter := by
  by_cases year : c = 'Y'
  · subst year
    exact ⟨['y', 'Y'], by decide, by decide, known⟩
  · have grouped : ∀ c ∈ "yMEdDHhmsSa".toList, ∃ letters ∈ runClasses, c ∈ letters := by decide
    have listed : c ∈ "yMEdDHhmsSa".toList := by
      rw [runLetter?, if_neg year] at known
      split at known
      · rwa [← List.contains_iff_mem]
      · cases known
    obtain ⟨letters, mem, inside⟩ := grouped c listed
    exact ⟨letters, mem, inside, (runLetter?_of_mem letters mem c inside).symm.trans known⟩

/-- A character of no class is left alone. -/
theorem runLetter?_eq_none {c : Char} (other : ∀ letters ∈ runClasses, c ∉ letters) :
    runLetter? c = none := by
  cases known : runLetter? c with
  | none => rfl
  | some letter =>
      obtain ⟨letters, mem, inside, -⟩ := exists_class_of_runLetter? known
      exact absurd inside (other letters mem)

/-- Runs are made of the letters of one class. -/
theorem sameRun_iff {a b : Char} : sameRun a b = true ↔ SameClass a b := by
  rw [sameRun, Bool.and_eq_true, beq_iff_eq, Option.isSome_iff_exists]
  constructor
  · rintro ⟨⟨letter, first⟩, same⟩
    obtain ⟨letters, mem, inside, head⟩ := exists_class_of_runLetter? first
    obtain ⟨others, mem', inside', head'⟩ := exists_class_of_runLetter? (same.symm.trans first)
    have one : others = letters := eq_of_head?_eq others mem' letters mem (head'.trans head.symm)
    exact ⟨letters, mem, inside, one ▸ inside'⟩
  · rintro ⟨letters, mem, first, second⟩
    rw [runLetter?_of_mem letters mem a first, runLetter?_of_mem letters mem b second]
    constructor
    · cases letters with
      | nil => cases first
      | cons letter rest => exact ⟨letter, rfl⟩
    · rfl

/-- So a text is cut between two letters that are of no common class. -/
theorem sameRun_eq_false {a b : Char} (apart : ¬ SameClass a b) : sameRun a b = false := by
  rwa [← Bool.not_eq_true, sameRun_iff]

/-- A character of no class is apart from both of its neighbours. -/
theorem not_sameClass_of_not_mem {c : Char} (other : ∀ letters ∈ runClasses, c ∉ letters)
    (d : Char) : ¬ SameClass c d ∧ ¬ SameClass d c := by
  constructor
  · rintro ⟨letters, known, inside, -⟩
    exact other letters known inside
  · rintro ⟨letters, known, -, inside⟩
    exact other letters known inside

/-- A letter is of one class only. -/
theorem class_unique {letters others : List Char} (known : letters ∈ runClasses)
    (known' : others ∈ runClasses) {c : Char} (inside : c ∈ letters) (inside' : c ∈ others) :
    others = letters := by
  apply eq_of_head?_eq others known' letters known
  rw [← runLetter?_of_mem others known' c inside', runLetter?_of_mem letters known c inside]

/-! ## The search for runs -/

/-- A text that is a longest run of one class and a rest. -/
structure IsRunBefore (letters run rest : List Char) : Prop where
  known : letters ∈ runClasses
  filled : run ≠ []
  inside : ∀ c ∈ run, c ∈ letters
  ends : ∀ c ∈ rest.head?, c ∉ letters

/-- What is found at the front of a text is a longest run. -/
theorem exists_isRunBefore {cs : List Char} {n : Nat} (found : runLength? cs = some n) :
    ∃ letters run rest, cs = run ++ rest ∧ n = run.length ∧ IsRunBefore letters run rest := by
  obtain ⟨letters, known, front⟩ := List.exists_of_findSome?_eq_some found
  simp only [Option.ite_none_right_eq_some, Option.some.injEq] at front
  obtain ⟨positive, length⟩ := front
  refine ⟨letters, cs.takeWhile letters.contains, cs.dropWhile letters.contains,
    List.takeWhile_append_dropWhile.symm, length.symm, known, List.length_pos_iff.mp positive,
    ?_, ?_⟩
  · intro c mem
    exact List.contains_iff_mem.mp (List.mem_takeWhile_imp mem)
  · intro c first inside
    have stop := List.head?_dropWhile_not letters.contains cs
    rw [Option.mem_def.mp first] at stop
    simp [inside] at stop

/-- Where nothing is found, the text does not begin with a pattern letter. -/
theorem not_mem_of_runLength?_eq_none {c : Char} {cs : List Char}
    (missing : runLength? (c :: cs) = none) : ∀ letters ∈ runClasses, c ∉ letters := by
  intro letters known inside
  have front := List.findSome?_eq_none_iff.mp missing letters known
  simp [inside] at front

/-- Passing over letters is the same as beginning behind them. -/
theorem replaceRuns_eq_drop (skip : Nat) (cs : List Char) :
    replaceRuns skip cs = replaceRuns 0 (cs.drop skip) := by
  induction skip generalizing cs with
  | zero => rfl
  | succ skip ih =>
      cases cs with
      | nil => rfl
      | cons c cs =>
          rw [replaceRuns, ih]
          rfl

/-- A run that is found is replaced as a whole, and the search goes on behind it. -/
theorem replaceRuns_run {run rest : List Char} (filled : run ≠ [])
    (found : runLength? (run ++ rest) = some run.length) :
    replaceRuns 0 (run ++ rest) = runText run ++ replaceRuns 0 rest := by
  cases run with
  | nil => exact absurd rfl filled
  | cons c run =>
      have step : replaceRuns 0 (c :: run ++ rest) =
          runText ((c :: run ++ rest).take (c :: run).length) ++
            replaceRuns run.length (run ++ rest) := by
        rw [List.cons_append] at found ⊢
        rw [replaceRuns, found]
        rfl
      rw [step, List.take_left, replaceRuns_eq_drop, List.drop_left]

/-- Neighbours in a longest run belong together, and its last letter and the next character do
not. -/
theorem IsRunBefore.splitBy {letters run rest : List Char} (h : IsRunBefore letters run rest) :
    (run ++ rest).splitBy sameRun = run :: rest.splitBy sameRun := by
  have chain : run.IsChain fun a b => sameRun a b := by
    apply List.Pairwise.isChain
    apply List.pairwise_of_forall_mem_list
    intro a first b second
    exact sameRun_iff.mpr ⟨letters, h.known, h.inside a first, h.inside b second⟩
  have cut : ∀ x ∈ run.getLast?, ∀ y ∈ rest.head?, sameRun x y = false := by
    intro x last y first
    apply sameRun_eq_false
    rintro ⟨others, known, left, right⟩
    have same := class_unique h.known known (h.inside x (List.mem_of_mem_getLast? last)) left
    exact h.ends y first (same ▸ right)
  rw [List.splitBy_append cut, List.splitBy_of_isChain h.filled chain, List.singleton_append]

/-- A character of no class is a piece of its own. -/
theorem splitBy_cons_of_not_mem {c : Char} (other : ∀ letters ∈ runClasses, c ∉ letters)
    (rest : List Char) : (c :: rest).splitBy sameRun = [c] :: rest.splitBy sameRun := by
  have cut : ∀ x ∈ [c].getLast?, ∀ y ∈ rest.head?, sameRun x y = false := by
    rintro x ⟨⟩ y -
    exact sameRun_eq_false (not_sameClass_of_not_mem other y).1
  rw [← List.singleton_append, List.splitBy_append cut]
  rfl

/-- A character of no class is not converted. -/
theorem runText_of_not_mem {c : Char} (other : ∀ letters ∈ runClasses, c ∉ letters) :
    runText [c] = [c] := by
  rw [runText, runLetter?_eq_none other]
  rfl

/-- The search finds the longest runs: the text is cut where neighbours are of different classes,
and each piece is converted. -/
theorem replaceRuns_eq_flatMap_splitBy (cs : List Char) :
    replaceRuns 0 cs = (cs.splitBy sameRun).flatMap runText := by
  cases cs with
  | nil => rfl
  | cons c rest =>
      cases found : runLength? (c :: rest) with
      | none =>
          have other := not_mem_of_runLength?_eq_none found
          rw [replaceRuns, found, splitBy_cons_of_not_mem other, List.flatMap_cons,
            runText_of_not_mem other, ← replaceRuns_eq_flatMap_splitBy rest]
          rfl
      | some n =>
          obtain ⟨letters, run, behind, cut, rfl, isRun⟩ := exists_isRunBefore found
          have shorter : behind.length < (c :: rest).length := by
            have positive := List.length_pos_of_ne_nil isRun.filled
            rw [cut, List.length_append]
            omega
          rw [cut] at found ⊢
          rw [replaceRuns_run isRun.filled found, isRun.splitBy, List.flatMap_cons,
            replaceRuns_eq_flatMap_splitBy behind]
termination_by cs.length
decreasing_by
  · exact Nat.lt_succ_self rest.length
  · exact shorter

/-- A pattern is cut into its runs, and each of them is converted by itself. -/
theorem toSpecifiers_eq (pattern : String) :
    toSpecifiers pattern = String.ofList ((pattern.toList.splitBy sameRun).flatMap runText) := by
  rw [toSpecifiers, replaceRuns_eq_flatMap_splitBy]

/-! ## The table of lengths -/

namespace SpecifierRule

variable {letter : Char} {n : Nat}

/-- A rule is for the lengths from its least to its most, where it has one. -/
theorem admits_iff {rule : SpecifierRule} :
    rule.admits n = true ↔ rule.least ≤ n ∧ ∀ m ∈ rule.most, n ≤ m := by
  cases most : rule.most <;> simp [admits, most]

/-- No range in the table is empty. -/
theorem least_le_most : ∀ rule ∈ specifierRules, ∀ m ∈ rule.most, rule.least ≤ m := by
  decide

/-- The ranges of a letter begin with one, and after the end of each there is another. -/
def Gapless (letter : Char) : Prop :=
  (∃ rule ∈ specifierRules, rule.letter = letter ∧ rule.least = 1) ∧
    ∀ rule ∈ specifierRules, rule.letter = letter → ∀ m ∈ rule.most,
      ∃ next ∈ specifierRules, next.letter = letter ∧ next.least = m + 1

/-- The ranges of every class are without a gap, which is read off the table. -/
theorem gapless : ∀ letters ∈ runClasses, ∀ letter ∈ letters.head?, Gapless letter := by
  unfold Gapless
  decide

/-- A rule admits its own least length. -/
theorem admits_least {rule : SpecifierRule} (mem : rule ∈ specifierRules) :
    rule.admits rule.least = true :=
  admits_iff.mpr ⟨Nat.le_refl _, least_le_most rule mem⟩

/-- Without a gap, every length is in a range. -/
theorem Gapless.exists_admits (h : Gapless letter) (positive : 1 ≤ n) :
    ∃ rule ∈ specifierRules, rule.letter = letter ∧ rule.admits n = true := by
  induction n, positive using Nat.le_induction with
  | base =>
      obtain ⟨rule, mem, same, least⟩ := h.1
      exact ⟨rule, mem, same, least ▸ admits_least mem⟩
  | succ n _ ih =>
      obtain ⟨rule, mem, same, admits⟩ := ih
      obtain ⟨least, most⟩ := admits_iff.mp admits
      by_cases longer : rule.admits (n + 1) = true
      · exact ⟨rule, mem, same, longer⟩
      · -- The range ends here, and the next one begins.
        obtain ⟨m, isMost, short⟩ : ∃ m ∈ rule.most, m < n + 1 := by
          by_contra endless
          push Not at endless
          exact longer (admits_iff.mpr ⟨by omega, endless⟩)
        obtain ⟨next, mem', same', least'⟩ := h.2 rule mem same m isMost
        have start : next.least = n + 1 := by
          have := most m isMost
          omega
        exact ⟨next, mem', same', start ▸ admits_least mem'⟩

/-- Of two ranges of a letter one ends before the other begins. -/
theorem eq_or_apart : ∀ first ∈ specifierRules, ∀ second ∈ specifierRules,
    first.letter = second.letter → first = second ∨
      (∃ m ∈ first.most, m < second.least) ∨ ∃ m ∈ second.most, m < first.least := by
  decide

/-- No two ranges of a letter overlap. -/
theorem eq_of_admits {first second : SpecifierRule} (mem : first ∈ specifierRules)
    (mem' : second ∈ specifierRules) (same : first.letter = second.letter)
    (admits : first.admits n = true) (admits' : second.admits n = true) : first = second := by
  obtain ⟨least, most⟩ := admits_iff.mp admits
  obtain ⟨least', most'⟩ := admits_iff.mp admits'
  rcases eq_or_apart first mem second mem' same with equal | ⟨m, isMost, apart⟩ | ⟨m, isMost, apart⟩
  · exact equal
  · have := most m isMost
    omega
  · have := most' m isMost
    omega

/-- The rule that is found is the only one. -/
theorem specifier?_eq_some {rule : SpecifierRule} (mem : rule ∈ specifierRules)
    (admits : rule.admits n = true) : specifier? rule.letter n = some rule.output := by
  have found : specifierRules.find? (fun r => r.letter == rule.letter && r.admits n) =
      some rule := by
    cases result : specifierRules.find? (fun r => r.letter == rule.letter && r.admits n) with
    | none =>
        have missed := List.find?_eq_none.mp result rule mem
        simp [admits] at missed
    | some first =>
        have fits := List.find?_some result
        rw [Bool.and_eq_true, beq_iff_eq] at fits
        rw [eq_of_admits (List.mem_of_find?_eq_some result) mem fits.1 fits.2 admits]
  rw [specifier?, found]
  rfl

end SpecifierRule

/-! ## Runs and their neighbours -/

/-- Texts whose neighbouring letters are of different classes are converted independently. -/
theorem toSpecifiers_append {a b : String}
    (apart : ∀ x ∈ a.toList.getLast?, ∀ y ∈ b.toList.head?, ¬ SameClass x y) :
    toSpecifiers (a ++ b) = toSpecifiers a ++ toSpecifiers b := by
  have cut : ∀ x ∈ a.toList.getLast?, ∀ y ∈ b.toList.head?, sameRun x y = false :=
    fun x last y first => sameRun_eq_false (apart x last y first)
  rw [toSpecifiers_eq, toSpecifiers_eq, toSpecifiers_eq, String.toList_append,
    List.splitBy_append cut, List.flatMap_append, String.ofList_append]

/-- A run becomes the specifier of its class and length. -/
theorem toSpecifiers_run {letters : List Char} (known : letters ∈ runClasses)
    {rule : SpecifierRule} (mem : rule ∈ specifierRules) (same : letters.head? = some rule.letter)
    {run : String} (inside : ∀ c ∈ run.toList, c ∈ letters) (nonempty : run.toList ≠ [])
    (admits : rule.admits run.length = true) : toSpecifiers run = rule.output := by
  have whole : run.toList.splitBy sameRun = [run.toList] := by
    have isRun : IsRunBefore letters run.toList [] := ⟨known, nonempty, inside, by simp⟩
    simpa using isRun.splitBy
  have found (c : Char) (mem' : c ∈ letters) :
      (runLetter? c).bind (specifier? · run.length) = some rule.output := by
    rw [runLetter?_of_mem letters known c mem', same]
    exact SpecifierRule.specifier?_eq_some mem admits
  rw [toSpecifiers_eq, whole, List.flatMap_singleton]
  cases shape : run.toList with
  | nil => exact absurd shape nonempty
  | cons c rest =>
      have first : c ∈ letters := inside c (shape ▸ List.mem_cons_self)
      have length : (c :: rest).length = run.length := by rw [← shape, String.length_toList]
      rw [runText, length, found c first]
      exact String.ofList_toList

/-- A character of no class stays between what its neighbours become. -/
theorem toSpecifiers_other {c : Char} (other : ∀ letters ∈ runClasses, c ∉ letters) (a b : String) :
    toSpecifiers (a ++ String.singleton c ++ b) =
      toSpecifiers a ++ String.singleton c ++ toSpecifiers b := by
  have alone : toSpecifiers (String.singleton c) = String.singleton c := by
    rw [toSpecifiers_eq, String.toList_singleton, splitBy_cons_of_not_mem other, List.flatMap_cons,
      runText_of_not_mem other]
    rfl
  have before : toSpecifiers (a ++ String.singleton c) =
      toSpecifiers a ++ toSpecifiers (String.singleton c) := by
    apply toSpecifiers_append
    intro x _ y first
    rw [String.toList_singleton, List.head?_cons, Option.mem_some_iff] at first
    exact first ▸ (not_sameClass_of_not_mem other x).2
  have after : toSpecifiers (a ++ String.singleton c ++ b) =
      toSpecifiers (a ++ String.singleton c) ++ toSpecifiers b := by
    apply toSpecifiers_append
    intro x last y _
    rw [String.toList_append, String.toList_singleton, List.getLast?_concat,
      Option.mem_some_iff] at last
    exact last ▸ (not_sameClass_of_not_mem other y).1
  rw [after, before, alone]

/-- The table names each class by its first letter. -/
theorem head?_of_letter_mem : ∀ letters ∈ runClasses, ∀ rule ∈ specifierRules,
    rule.letter ∈ letters → letters.head? = some rule.letter := by
  decide

/-- A pattern is converted run by run. Texts whose neighbouring letters are of different classes are
converted independently. For every class and length there is exactly one line of the table, it is
found, and it says what a run becomes, whichever letters of its class the run is written with. All
other characters stay where they are. -/
theorem toSpecifiers_by_runs :
    (∀ a b : String, (∀ x ∈ a.toList.getLast?, ∀ y ∈ b.toList.head?, ¬ SameClass x y) →
      toSpecifiers (a ++ b) = toSpecifiers a ++ toSpecifiers b) ∧
    (∀ letters ∈ runClasses, ∀ n, 0 < n → ∃ rule ∈ specifierRules,
      (∀ line ∈ specifierRules, line.letter ∈ letters ∧ line.admits n = true ↔ line = rule) ∧
      (∀ c ∈ letters, (runLetter? c).bind (specifier? · n) = some rule.output) ∧
      ∀ run : String, run.length = n → (∀ c ∈ run.toList, c ∈ letters) →
        toSpecifiers run = rule.output) ∧
    ∀ c, (∀ letters ∈ runClasses, c ∉ letters) → ∀ a b : String,
      toSpecifiers (a ++ String.singleton c ++ b) =
        toSpecifiers a ++ String.singleton c ++ toSpecifiers b := by
  refine ⟨fun a b => toSpecifiers_append, ?_, fun c other => toSpecifiers_other other⟩
  intro letters known n positive
  obtain ⟨letter, head⟩ : ∃ letter, letters.head? = some letter := by
    have filled : ∀ letters ∈ runClasses, letters.head?.isSome = true := by decide
    exact Option.isSome_iff_exists.mp (filled letters known)
  obtain ⟨rule, mem, rfl, admits⟩ :=
    (SpecifierRule.gapless letters known letter head).exists_admits positive
  refine ⟨rule, mem, ?_, ?_, ?_⟩
  · intro line mem'
    constructor
    · intro fits
      have same := (head?_of_letter_mem letters known line mem' fits.1).symm.trans head
      exact SpecifierRule.eq_of_admits mem' mem (Option.some.inj same) fits.2 admits
    · intro equal
      rw [equal]
      exact ⟨List.mem_of_mem_head? head, admits⟩
  · intro c inside
    rw [runLetter?_of_mem letters known c inside, head]
    exact SpecifierRule.specifier?_eq_some mem admits
  · intro run length inside
    apply toSpecifiers_run known mem head inside
    · intro empty
      rw [← String.length_toList, empty] at length
      exact absurd length (Nat.ne_of_lt positive)
    · rw [length]
      exact admits

/-- The letters of `MONTH` are pattern letters themselves and are not converted again, a year may
mix its two letters, and hours and minutes need nothing between them. -/
theorem toSpecifiers_by_runs_of_month_and_year :
    toSpecifiers ("MMMM" ++ String.singleton ' ' ++ "yYyy") = "MONTH YYYY" ∧
      toSpecifiers ("HH" ++ "mm") = toSpecifiers "HH" ++ toSpecifiers "mm" := by
  obtain ⟨cut, runs, others⟩ := toSpecifiers_by_runs
  obtain ⟨month, -, unique, -, becomes⟩ := runs ['M'] (by decide) 4 (by decide)
  obtain ⟨year, -, unique', -, becomes'⟩ := runs ['y', 'Y'] (by decide) 4 (by decide)
  constructor
  · rw [others ' ' (by decide), becomes "MMMM" (by decide) (by decide),
      becomes' "yYyy" (by decide) (by decide),
      ← (unique ⟨'M', 4, none, "MONTH"⟩ (by decide)).mp (by decide),
      ← (unique' ⟨'y', 4, none, "YYYY"⟩ (by decide)).mp (by decide)]
    decide
  · apply cut
    unfold SameClass
    decide

end SqlLowering.Format
