import SqlLowering.Proofs.SymbolRuns

/-!
# The symbol of the clock as an abbreviation

The time of day `HH:mm:ss` has a symbol of its own, `%T`, which the target reads as `%H:%i:%s`. Its
replacement comes first and takes the eight letters wherever they stand, also out of a longer run of
hours or seconds. The rest of such a run is then left over and becomes a symbol itself, so that the
hour or the second is written twice.

This is the only harm it does. A pattern keeps its meaning exactly if no clock in it stands directly
after an `H` or directly before an `s`. The proof compares both texts at the border of every clock.
At a border between different letters the runs on both sides stay what they are
(`segmentSymbols_append`). At a border inside a run the two texts differ by the two characters of
one symbol (`length_segmentSymbols_append`), and as nothing makes up for them, the texts differ.

Main statement: `expandClocks_toSymbols_eq_iff`.
-/

namespace SqlLowering.Format

/-- What the symbol of the clock stands for. -/
def clockExpansion : SymbolRule where
  matcher := .exactly ['%', 'T']
  output := ['%', 'H', ':', '%', 'i', ':', '%', 's']

/-- A converted pattern with every symbol of a clock written out. -/
def expandClocks (symbols : String) : String :=
  String.ofList (clockExpansion.replaceAll symbols.toList)

/-- The pattern with percent symbols, without a symbol for the clock. -/
def toSymbolsWithoutClock (pattern : String) : String :=
  String.ofList (symbolRules.tail.foldl (fun cs rule => rule.replaceAll cs) pattern.toList)

/-! ## Writing out the clocks -/

/-- The text has no symbol of a clock in it, and none can begin with its last character. -/
def Clockless (u : List Char) : Prop :=
  ∀ v, clockExpansion.replaceAll (u ++ v) = u ++ clockExpansion.replaceAll v

/-- Every match takes up at least one character, so that a replacement comes to an end. -/
theorem isProper_clockExpansion : clockExpansion.matcher.IsProper := by
  decide

/-- A character with which no symbol of a clock begins stays where it is. -/
theorem replaceAll_clockExpansion_cons {c : Char} {cs : List Char}
    (missing : clockExpansion.matcher.length? (c :: cs) = none) :
    clockExpansion.replaceAll (c :: cs) = c :: clockExpansion.replaceAll cs := by
  simp only [SymbolRule.replaceAll_eq_sweep isProper_clockExpansion]
  rw [SymbolRule.sweep_of_length?_eq_none missing, SymbolRule.sweep_false_cons]
  rfl

/-- The symbol of a clock at the front is written out, and what follows is treated on its own. -/
theorem replaceAll_clockExpansion_clock (v : List Char) :
    clockExpansion.replaceAll (['%', 'T'] ++ v) =
      clockExpansion.output ++ clockExpansion.replaceAll v := by
  have found : clockExpansion.matcher.length? (['%', 'T'] ++ v) = some 2 := by
    simp [clockExpansion, SymbolMatcher.length?]
  simp only [SymbolRule.replaceAll_eq_sweep isProper_clockExpansion]
  rw [SymbolRule.sweep_of_length?_eq_some isProper_clockExpansion found]
  rfl

namespace Clockless

theorem nil : Clockless [] := fun _ => rfl

/-- Texts without a clock can be joined, since a clock can begin at the end of neither. -/
theorem append {u v : List Char} (hu : Clockless u) (hv : Clockless v) : Clockless (u ++ v) := by
  intro w
  rw [List.append_assoc, hu, hv, List.append_assoc]

theorem flatten {texts : List (List Char)} (each : ∀ u ∈ texts, Clockless u) :
    Clockless texts.flatten := by
  induction texts with
  | nil => exact nil
  | cons u texts ih =>
      obtain ⟨first, others⟩ := List.forall_mem_cons.mp each
      exact first.append (ih others)

/-- Without a percent sign there is no symbol at all. -/
theorem of_not_mem {u : List Char} (plain : '%' ∉ u) : Clockless u := by
  intro v
  induction u with
  | nil => rfl
  | cons c u ih =>
      have ne : '%' ≠ c := List.ne_of_not_mem_cons plain
      have missing : clockExpansion.matcher.length? (c :: (u ++ v)) = none := by
        simp [clockExpansion, SymbolMatcher.length?, ne]
      rw [List.cons_append, replaceAll_clockExpansion_cons missing,
        ih (List.not_mem_of_not_mem_cons plain), List.cons_append]

/-- A symbol other than that of the clock. -/
theorem symbol {c : Char} (other : c ≠ 'T') (letter : c ≠ '%') : Clockless ['%', c] := by
  intro v
  have missing : clockExpansion.matcher.length? ('%' :: c :: v) = none := by
    simp [clockExpansion, SymbolMatcher.length?, other.symm]
  have single : Clockless [c] := of_not_mem (by simpa using letter.symm)
  rw [List.cons_append, List.cons_append, List.nil_append, replaceAll_clockExpansion_cons missing]
  exact congrArg _ (single v)

/-- Nor can a clock arise between copies of another symbol. -/
theorem copies {c : Char} (other : c ≠ 'T') (letter : c ≠ '%') (n : Nat) :
    Clockless (copies n ['%', c]) := by
  apply flatten
  intro u mem
  rw [List.eq_of_mem_replicate mem]
  exact symbol other letter

end Clockless

/-- No run becomes the symbol of a clock. -/
theorem clockless_runSymbols {run : List Char} (plain : '%' ∉ run) :
    Clockless (runSymbols run) := by
  have rest (n : Nat) : Clockless (run.drop n) :=
    .of_not_mem fun mem => plain (List.mem_of_mem_drop mem)
  unfold runSymbols
  dsimp only
  split <;> try split_ifs
  all_goals
    first
    | exact .symbol (by decide) (by decide)
    | exact .of_not_mem plain
    | exact .copies (by decide) (by decide) _
    | exact (Clockless.copies (by decide) (by decide) _).append (rest _)

/-- What stands between the clocks of a pattern has no clock after conversion either, run by run. -/
theorem clockless_segmentSymbols {segment : List Char} (plain : '%' ∉ segment) :
    Clockless (segmentSymbols segment) := by
  rw [segmentSymbols, List.flatMap_def]
  apply Clockless.flatten
  intro u mem
  obtain ⟨run, inSplit, rfl⟩ := List.mem_map.mp mem
  obtain ⟨letter, -, isRun⟩ := isRun_of_mem_splitBy plain inSplit
  exact clockless_runSymbols isRun.plain

/-- Of a converted pattern, only what stands between the parts is written out. -/
theorem replaceAll_clockExpansion_intercalate {segments : List (List Char)}
    (plain : ∀ segment ∈ segments, '%' ∉ segment) :
    clockExpansion.replaceAll (['%', 'T'].intercalate (segments.map segmentSymbols)) =
      clockExpansion.output.intercalate (segments.map segmentSymbols) := by
  induction segments with
  | nil => rfl
  | cons segment segments ih =>
      obtain ⟨first, others⟩ := List.forall_mem_cons.mp plain
      cases segments with
      | nil =>
          have whole := clockless_segmentSymbols first []
          rw [List.append_nil] at whole
          rw [List.map_singleton, List.intercalate_singleton, List.intercalate_singleton, whole]
          exact List.append_nil _
      | cons next segments =>
          rw [List.map_cons, List.map_cons, List.intercalate_cons_cons, ← List.map_cons,
            List.append_assoc, clockless_segmentSymbols first, replaceAll_clockExpansion_clock,
            ih others, List.map_cons, List.intercalate_cons_cons, List.append_assoc]

/-! ## Borders -/

/-- Two texts whose neighbouring letters differ are converted independently. -/
theorem segmentSymbols_append {u v : List Char}
    (apart : ∀ a ∈ u.getLast?, ∀ b ∈ v.head?, sameLetter a b = false) :
    segmentSymbols (u ++ v) = segmentSymbols u ++ segmentSymbols v := by
  rw [segmentSymbols, List.splitBy_append apart, List.flatMap_append]
  rfl

/-- The letters with which a clock begins and ends. A run of them becomes one symbol, however long
it is. -/
def clockEnds : List Char :=
  ['H', 's']

/-- Next to a letter at the end of a clock, any other letter begins a run of its own: neither of the
two is taken for another letter. -/
theorem sameLetter_eq_false {a b : Char} (known : b ∈ clockEnds) (ne : a ≠ b) :
    sameLetter a b = false ∧ sameLetter b a = false := by
  simp only [clockEnds, List.mem_cons, List.not_mem_nil, or_false] at known
  simp only [sameLetter, beq_eq_false_iff_ne]
  grind [symbolLetter]

/-- A run of such a letter is one symbol of two characters, however long it is. -/
theorem length_segmentSymbols_replicate {letter : Char} (known : letter ∈ clockEnds) (n : Nat) :
    (segmentSymbols (List.replicate (n + 1) letter)).length = 2 := by
  have chain : (List.replicate (n + 1) letter).IsChain fun a b => sameLetter a b :=
    List.isChain_replicate_of_rel _ (beq_self_eq_true _)
  have nonempty : List.replicate (n + 1) letter ≠ [] := List.cons_ne_nil _ _
  rw [segmentSymbols, List.splitBy_of_isChain nonempty chain, List.flatMap_singleton]
  simp only [clockEnds, List.mem_cons, List.not_mem_nil, or_false] at known
  rcases known with rfl | rfl
  · show (if 2 ≤ (List.replicate (n + 1) 'H').length then ['%', 'H'] else ['%', 'k']).length = 2
    split_ifs <;> rfl
  · rfl

/-- Every text begins with a run of the letter, which may be empty, and then goes on with another
letter. -/
theorem exists_replicate_append (letter : Char) (v : List Char) :
    ∃ n w, v = List.replicate n letter ++ w ∧ ∀ b ∈ w.head?, b ≠ letter := by
  induction v with
  | nil => exact ⟨0, [], rfl, by simp⟩
  | cons c v ih =>
      by_cases same : c = letter
      · obtain ⟨n, w, rfl, apart⟩ := ih
        exact ⟨n + 1, w, by rw [same]; rfl, apart⟩
      · exact ⟨0, c :: v, rfl, by simpa using same⟩

/-- Every text ends with such a run, by the same argument from the other side. -/
theorem exists_append_replicate (letter : Char) (u : List Char) :
    ∃ w n, u = w ++ List.replicate n letter ∧ ∀ a ∈ w.getLast?, a ≠ letter := by
  obtain ⟨n, w, same, apart⟩ := exists_replicate_append letter u.reverse
  refine ⟨w.reverse, n, ?_, ?_⟩
  · rw [← List.reverse_reverse u, same, List.reverse_append, List.reverse_replicate]
  · rwa [List.getLast?_reverse]

/-- A border inside a run of hours or seconds costs one symbol. -/
theorem length_segmentSymbols_append {letter : Char} (known : letter ∈ clockEnds) {u v : List Char}
    (before : u.getLast? = some letter) (after : v.head? = some letter) :
    (segmentSymbols (u ++ v)).length + 2 =
      (segmentSymbols u).length + (segmentSymbols v).length := by
  obtain ⟨u, m, rfl, left⟩ := exists_append_replicate letter u
  obtain ⟨n, v, rfl, right⟩ := exists_replicate_append letter v
  -- The run is empty on neither side.
  cases m with
  | zero =>
      rw [List.replicate_zero, List.append_nil] at before
      exact absurd rfl (left letter before)
  | succ m =>
  cases n with
  | zero => exact absurd rfl (right letter after)
  | succ n =>
      have cutLeft (w : List Char) (k : Nat) :
          segmentSymbols (u ++ (List.replicate (k + 1) letter ++ w)) =
            segmentSymbols u ++ segmentSymbols (List.replicate (k + 1) letter ++ w) := by
        apply segmentSymbols_append
        rintro a last b ⟨⟩
        exact (sameLetter_eq_false known (left a last)).1
      have cutRight (k : Nat) :
          segmentSymbols (List.replicate (k + 1) letter ++ v) =
            segmentSymbols (List.replicate (k + 1) letter) ++ segmentSymbols v := by
        apply segmentSymbols_append
        intro a last b first
        rw [List.replicate_succ', List.getLast?_concat] at last
        cases last
        exact (sameLetter_eq_false known (right b first)).2
      have joined : u ++ List.replicate (m + 1) letter ++ (List.replicate (n + 1) letter ++ v) =
          u ++ (List.replicate (m + 1 + n + 1) letter ++ v) := by
        rw [List.append_assoc, ← List.append_assoc (List.replicate _ _),
          List.replicate_append_replicate]
        rfl
      have alone := cutLeft [] m
      rw [List.append_nil] at alone
      rw [joined, cutLeft, cutRight, cutRight, alone]
      simp only [List.length_append, length_segmentSymbols_replicate known]
      omega

/-! ## Clocks between parts -/

/-- A clock between the parts is taken out of no longer run. -/
def Free (before after : List Char) : Prop :=
  before.getLast? ≠ some 'H' ∧ after.head? ≠ some 's'

/-- Converted letter by letter, a clock is what its symbol stands for. -/
theorem segmentSymbols_clock : segmentSymbols clock = clockExpansion.output := by
  decide +kernel

/-- A text begins with a second exactly if its first part does: a clock begins with an hour. -/
theorem head?_intercalate_clock {segment : List Char} {segments : List (List Char)} :
    (clock.intercalate (segment :: segments)).head? = some 's' ↔ segment.head? = some 's' := by
  cases segments with
  | nil => rw [List.intercalate_singleton]
  | cons next segments =>
      cases segment with
      | nil => simp [List.intercalate_cons_cons, clock]
      | cons c segment => simp [List.intercalate_cons_cons]

/-- Before a clock a text is converted on its own, unless it ends with an hour. -/
theorem segmentSymbols_append_clock {u v : List Char} (free : u.getLast? ≠ some 'H') :
    segmentSymbols (u ++ (clock ++ v)) = segmentSymbols u ++ segmentSymbols (clock ++ v) := by
  apply segmentSymbols_append
  rintro a last b ⟨⟩
  apply (sameLetter_eq_false (by decide) _).1
  rintro rfl
  exact free last

/-- After a clock a text is converted on its own, unless it begins with a second. -/
theorem segmentSymbols_clock_append {v : List Char} (free : v.head? ≠ some 's') :
    segmentSymbols (clock ++ v) = clockExpansion.output ++ segmentSymbols v := by
  rw [← segmentSymbols_clock]
  apply segmentSymbols_append
  rintro a ⟨⟩ b first
  apply (sameLetter_eq_false (by decide) _).2
  rintro rfl
  exact free first

/-- Where all clocks are free, they can be written out. -/
theorem intercalate_segmentSymbols_of_isChain {segments : List (List Char)}
    (free : segments.IsChain Free) (nonempty : segments ≠ []) :
    clockExpansion.output.intercalate (segments.map segmentSymbols) =
      segmentSymbols (clock.intercalate segments) := by
  induction segments with
  | nil => exact absurd rfl nonempty
  | cons segment segments ih =>
      cases segments with
      | nil => simp only [List.map_singleton, List.intercalate_singleton]
      | cons next segments =>
          obtain ⟨⟨before, after⟩, rest⟩ := List.isChain_cons_cons.mp free
          have after' : (clock.intercalate (next :: segments)).head? ≠ some 's' :=
            mt head?_intercalate_clock.mp after
          rw [List.map_cons, List.map_cons, List.intercalate_cons_cons, ← List.map_cons,
            ih rest (List.cons_ne_nil _ _), List.intercalate_cons_cons, List.append_assoc,
            List.append_assoc, segmentSymbols_append_clock before,
            segmentSymbols_clock_append after']

/-- A clock takes up at most as many characters as it does written out, and fewer if it is not
free. -/
theorem length_segmentSymbols_between (u v : List Char) :
    (segmentSymbols (u ++ (clock ++ v))).length +
        (if u.getLast? = some 'H' then 2 else 0) + (if v.head? = some 's' then 2 else 0) =
      (segmentSymbols u).length + clockExpansion.output.length + (segmentSymbols v).length := by
  have first : (segmentSymbols (u ++ (clock ++ v))).length +
      (if u.getLast? = some 'H' then 2 else 0) =
        (segmentSymbols u).length + (segmentSymbols (clock ++ v)).length := by
    split_ifs with before
    · exact length_segmentSymbols_append (by decide) before rfl
    · rw [segmentSymbols_append_clock before, List.length_append]
      rfl
  have second : (segmentSymbols (clock ++ v)).length + (if v.head? = some 's' then 2 else 0) =
      clockExpansion.output.length + (segmentSymbols v).length := by
    split_ifs with after
    · rw [← segmentSymbols_clock]
      exact length_segmentSymbols_append (by decide) rfl after
    · rw [segmentSymbols_clock_append after, List.length_append]
      rfl
  omega

/-- With the clocks written out a text is never shorter, since each border can only add a symbol. -/
theorem length_segmentSymbols_le {segments : List (List Char)} (nonempty : segments ≠ []) :
    (segmentSymbols (clock.intercalate segments)).length ≤
      (clockExpansion.output.intercalate (segments.map segmentSymbols)).length := by
  induction segments with
  | nil => exact absurd rfl nonempty
  | cons segment segments ih =>
      cases segments with
      | nil => simp only [List.map_singleton, List.intercalate_singleton, Nat.le_refl]
      | cons next segments =>
          have rest := ih (List.cons_ne_nil _ _)
          have here := length_segmentSymbols_between segment (clock.intercalate (next :: segments))
          rw [List.map_cons, List.map_cons, List.intercalate_cons_cons, List.intercalate_cons_cons,
            ← List.map_cons]
          simp only [List.length_append, List.append_assoc]
          omega

/-- Where a clock is not free, the text with the clocks written out is longer. -/
theorem isChain_of_length_le {segments : List (List Char)} (nonempty : segments ≠ [])
    (le : (clockExpansion.output.intercalate (segments.map segmentSymbols)).length ≤
      (segmentSymbols (clock.intercalate segments)).length) :
    segments.IsChain Free := by
  induction segments with
  | nil => exact .nil
  | cons segment segments ih =>
      cases segments with
      | nil => exact .singleton _
      | cons next segments =>
          have rest := length_segmentSymbols_le (List.cons_ne_nil next segments)
          have here := length_segmentSymbols_between segment (clock.intercalate (next :: segments))
          rw [List.map_cons, List.map_cons, List.intercalate_cons_cons, List.intercalate_cons_cons,
            ← List.map_cons] at le
          simp only [List.length_append, List.append_assoc] at le
          apply List.isChain_cons_cons.mpr
          constructor
          · constructor
            · intro before
              rw [if_pos before] at here
              omega
            · intro after
              rw [if_pos (head?_intercalate_clock.mpr after)] at here
              omega
          · apply ih (List.cons_ne_nil _ _)
            omega

/-! ## Clocks in a pattern -/

/-- The parts with the clocks between them are the whole text again, so none of it is lost. -/
theorem intercalate_betweenClocks (cs : List Char) : clock.intercalate (betweenClocks cs) = cs := by
  fun_induction betweenClocks cs with
  | case1 => rfl
  | case2 c cs front ih =>
      obtain ⟨first, others, parts⟩ :=
        List.exists_cons_of_ne_nil (betweenClocks_ne_nil (cs.drop (clock.length - 1)))
      obtain ⟨rest, whole⟩ := List.isPrefixOf_iff_prefix.mp front
      have same : cs.drop (clock.length - 1) = rest := by
        have tail := congrArg (List.drop clock.length) whole
        rw [List.drop_left] at tail
        exact tail.symm
      rw [parts, List.intercalate_cons_cons, ← parts, ih, same]
      exact whole
  | case3 c cs front ih =>
      obtain ⟨first, others, parts⟩ := List.exists_cons_of_ne_nil (betweenClocks_ne_nil cs)
      rw [parts] at ih
      rw [parts, List.modifyHead_cons]
      cases others with
      | nil =>
          rw [List.intercalate_singleton] at ih
          rw [List.intercalate_singleton, ih]
      | cons second others =>
          rw [List.intercalate_cons_cons] at ih
          rw [List.intercalate_cons_cons, List.cons_append, List.cons_append, ih]

/-- Two clocks never overlap. -/
theorem clock_prefix_of_append {u v : List Char} (nonempty : u ≠ [])
    (front : clock <+: u ++ (clock ++ v)) : clock <+: u := by
  obtain ⟨rest, whole⟩ := front
  rcases List.append_eq_append_iff.mp whole with ⟨w, same, -⟩ | ⟨w, same, tail⟩
  · exact ⟨w, same.symm⟩
  · -- The end of one clock would be the beginning of another.
    have begins : w <+: clock := by
      apply List.prefix_of_prefix_length_le ⟨rest, tail.symm⟩ (List.prefix_append clock v)
      rw [same, List.length_append]
      exact Nat.le_add_left _ _
    have drop : w = clock.drop u.length := by
      rw [same, List.drop_left]
    have pos := List.length_pos_of_ne_nil nonempty
    have le : u.length ≤ clock.length := by
      rw [same, List.length_append]
      exact Nat.le_add_right _ _
    have overlap : ∀ n ≤ clock.length, 0 < n → clock.drop n <+: clock → n = clock.length := by
      decide
    have all := overlap u.length le pos (drop ▸ begins)
    rw [all, List.drop_length] at drop
    rw [drop, List.append_nil] at same
    exact same ▸ List.prefix_refl clock

/-- A clock at the front ends an empty part. -/
theorem betweenClocks_of_prefix {c : Char} {cs : List Char} (front : clock <+: c :: cs) :
    betweenClocks (c :: cs) = [] :: betweenClocks (cs.drop (clock.length - 1)) := by
  rw [betweenClocks, if_pos (List.isPrefixOf_iff_prefix.mpr front)]

/-- Any other character at the front belongs to the first part. -/
theorem betweenClocks_of_not_prefix {c : Char} {cs : List Char} (front : ¬ clock <+: c :: cs) :
    betweenClocks (c :: cs) = (betweenClocks cs).modifyHead (c :: ·) := by
  rw [betweenClocks, if_neg (mt List.isPrefixOf_iff_prefix.mp front)]

/-- A clock anywhere in a text divides its parts, since no clock before it overlaps with it. -/
theorem betweenClocks_append_clock (u v : List Char) :
    betweenClocks (u ++ (clock ++ v)) = betweenClocks u ++ betweenClocks v := by
  fun_induction betweenClocks u with
  | case1 =>
      exact betweenClocks_of_prefix (List.prefix_append clock v)
  | case2 c u front ih =>
      have front := List.isPrefixOf_iff_prefix.mp front
      have front' : clock <+: c :: (u ++ (clock ++ v)) := front.trans (List.prefix_append _ _)
      have le : clock.length - 1 ≤ u.length := Nat.sub_le_of_le_add front.length_le
      rw [List.cons_append, betweenClocks_of_prefix front', List.drop_append_of_le_length le, ih,
        List.cons_append]
  | case3 c u front ih =>
      have front := mt List.isPrefixOf_iff_prefix.mpr front
      have front' : ¬ clock <+: c :: (u ++ (clock ++ v)) :=
        mt (clock_prefix_of_append (List.cons_ne_nil c u)) front
      obtain ⟨first, others, parts⟩ := List.exists_cons_of_ne_nil (betweenClocks_ne_nil u)
      rw [List.cons_append, betweenClocks_of_not_prefix front', ih, parts]
      rfl

/-- The last part of a text that ends with an hour does so too. -/
theorem exists_getLast?_of_intercalate_clock {segments : List (List Char)}
    (last : (clock.intercalate segments).getLast? = some 'H') :
    ∃ segment ∈ segments.getLast?, segment.getLast? = some 'H' := by
  induction segments with
  | nil => cases last
  | cons segment segments ih =>
      cases segments with
      | nil =>
          rw [List.intercalate_singleton] at last
          exact ⟨segment, rfl, last⟩
      | cons next segments =>
          rw [List.intercalate_cons_cons, List.getLast?_append] at last
          rw [List.getLast?_cons_cons]
          cases tail : (clock.intercalate (next :: segments)).getLast? with
          | some c =>
              rw [tail, Option.some_or] at last
              exact ih (tail.trans last)
          | none =>
              rw [tail, Option.none_or, List.getLast?_append_of_ne_nil _ (by decide)] at last
              cases last

/-- Where all clocks are free, none stands directly after an hour: it would divide the text there,
and the part before it would end with the hour. -/
theorem not_hour_clock_infix_of_isChain {cs : List Char} (free : (betweenClocks cs).IsChain Free) :
    ¬ 'H' :: clock <:+: cs := by
  rintro ⟨u, v, rfl⟩
  have whole : u ++ 'H' :: clock ++ v = (u ++ ['H']) ++ (clock ++ v) := by simp
  rw [whole, betweenClocks_append_clock, List.isChain_append] at free
  have last : (clock.intercalate (betweenClocks (u ++ ['H']))).getLast? = some 'H' := by
    rw [intercalate_betweenClocks, List.getLast?_concat]
  obtain ⟨segment, mem, ends⟩ := exists_getLast?_of_intercalate_clock last
  obtain ⟨next, others, parts⟩ := List.exists_cons_of_ne_nil (betweenClocks_ne_nil v)
  exact (free.2.2 segment mem next (by rw [parts]; rfl)).1 ends

/-- Where all clocks are free, none stands directly before a second, in the same way. -/
theorem not_clock_second_infix_of_isChain {cs : List Char}
    (free : (betweenClocks cs).IsChain Free) : ¬ clock ++ ['s'] <:+: cs := by
  rintro ⟨u, v, rfl⟩
  have whole : u ++ (clock ++ ['s']) ++ v = u ++ (clock ++ 's' :: v) := by simp
  rw [whole, betweenClocks_append_clock, List.isChain_append] at free
  obtain ⟨next, others, parts⟩ := List.exists_cons_of_ne_nil (betweenClocks_ne_nil ('s' :: v))
  have begins : next.head? = some 's' := by
    apply head?_intercalate_clock.mp
    rw [← parts, intercalate_betweenClocks]
    rfl
  have last := List.getLast?_eq_some_getLast (betweenClocks_ne_nil u)
  exact (free.2.2 _ last next (by rw [parts]; rfl)).2 begins

/-- A clock that is not free is seen in the text, together with the letter that it borders on. -/
theorem isChain_of_not_infix {segments : List (List Char)}
    (hours : ¬ 'H' :: clock <:+: clock.intercalate segments)
    (seconds : ¬ clock ++ ['s'] <:+: clock.intercalate segments) : segments.IsChain Free := by
  induction segments with
  | nil => exact .nil
  | cons segment segments ih =>
      cases segments with
      | nil => exact .singleton _
      | cons next segments =>
          rw [List.intercalate_cons_cons] at hours seconds
          have later : clock.intercalate (next :: segments) <:+:
              segment ++ clock ++ clock.intercalate (next :: segments) :=
            (List.suffix_append _ _).isInfix
          have free : Free segment next := by
            constructor
            · intro ends
              apply hours
              rw [← List.dropLast_append_getLast? 'H' ends]
              exact ⟨segment.dropLast, clock.intercalate (next :: segments), by simp⟩
            · intro begins
              apply seconds
              obtain ⟨rest, same⟩ := List.head?_eq_some_iff.mp (head?_intercalate_clock.mpr begins)
              rw [same]
              exact ⟨segment, rest, by simp⟩
          apply List.isChain_cons_cons.mpr
          exact ⟨free, ih (fun inRest => hours (inRest.trans later))
            (fun inRest => seconds (inRest.trans later))⟩

/-- No part borders on a clock with its letters exactly if no clock is within a longer run of hours
or seconds. -/
theorem isChain_betweenClocks_iff (cs : List Char) :
    (betweenClocks cs).IsChain Free ↔
      ¬ 'H' :: clock <:+: cs ∧ ¬ clock ++ ['s'] <:+: cs := by
  constructor
  · intro free
    exact ⟨not_hour_clock_infix_of_isChain free, not_clock_second_infix_of_isChain free⟩
  · rintro ⟨hours, seconds⟩
    rw [← intercalate_betweenClocks cs] at hours seconds
    exact isChain_of_not_infix hours seconds

/-- Writing out the clocks of a converted pattern gives what conversion without a symbol for the
clock gives, exactly if no clock in the pattern is part of a longer run of hours or seconds. -/
theorem expandClocks_toSymbols_eq_iff (pattern : String) (plain : '%' ∉ pattern.toList) :
    expandClocks (toSymbols pattern) = toSymbolsWithoutClock pattern ↔
      ¬ "HHH:mm:ss".toList <:+: pattern.toList ∧ ¬ "HH:mm:sss".toList <:+: pattern.toList := by
  have parts : ∀ segment ∈ betweenClocks pattern.toList, '%' ∉ segment :=
    fun segment mem percent => plain (mem_of_mem_betweenClocks mem percent)
  have expanded : expandClocks (toSymbols pattern) = String.ofList
      (clockExpansion.output.intercalate
        ((betweenClocks pattern.toList).map segmentSymbols)) := by
    rw [expandClocks, toSymbols, symbolRules_eq, List.foldl_cons, replaceAll_clockRule,
      foldl_letterRules parts, String.toList_ofList, replaceAll_clockExpansion_intercalate parts]
  have direct : toSymbolsWithoutClock pattern = String.ofList (segmentSymbols pattern.toList) := by
    have alone : ∀ segment ∈ [pattern.toList], '%' ∉ segment := by simpa using plain
    have single := foldl_letterRules alone
    rw [List.map_singleton, List.intercalate_singleton, List.intercalate_singleton] at single
    rw [toSymbolsWithoutClock, symbolRules_eq, List.tail_cons, single]
  have nonempty := betweenClocks_ne_nil pattern.toList
  have whole := intercalate_betweenClocks pattern.toList
  rw [expanded, direct, String.ofList_inj]
  refine Iff.trans ?_ (isChain_betweenClocks_iff pattern.toList)
  constructor
  · intro same
    apply isChain_of_length_le nonempty
    rw [same, whole]
  · intro free
    rw [intercalate_segmentSymbols_of_isChain free nonempty, whole]

/-- A third hour before the clock is written as an hour of its own. -/
theorem expandClocks_toSymbols_ne_of_three_hours :
    '%' ∉ "HHH:mm:ss".toList ∧ toSymbols "HHH:mm:ss" = "%k%T" ∧
      toSymbolsWithoutClock "HHH:mm:ss" = "%H:%i:%s" ∧
      expandClocks (toSymbols "HHH:mm:ss") ≠ toSymbolsWithoutClock "HHH:mm:ss" := by
  have plain : '%' ∉ "HHH:mm:ss".toList := by decide +kernel
  refine ⟨plain, by decide +kernel, by decide +kernel, ?_⟩
  intro same
  exact ((expandClocks_toSymbols_eq_iff _ plain).mp same).1 (List.infix_refl _)

end SqlLowering.Format
