import Mathlib.Data.List.Basic
import SqlLowering.Format.Symbol

/-!
# One replacement over a text

A replacement of letters goes through a text from left to right. All that its next step depends on
is whether a match may begin here; after a percent sign a guarded replacement has to let one
character pass first. Written in this way (`SymbolRule.sweep`), it is plain where a text can be cut
without changing the result.

Main statements: `IsOfLetters.replaceAll_append_of_head` and
`IsOfLetters.replaceAll_append_of_closes`. Two texts are replaced independently if the second does
not begin with a letter that is looked for, or if the first does not end with one, or ends with a
symbol that the guard protects.
-/

namespace SqlLowering.Format

-- What holds for the characters of a text is decided by going through the text. Without these
-- instances it might be decided by going through all characters there are.
section Deciding

variable (p : Char → Prop) [DecidablePred p]

instance decidableForallMemText (cs : List Char) : Decidable (∀ c ∈ cs, p c) :=
  List.decidableBAll p cs

instance decidableForallMemChar? (c? : Option Char) : Decidable (∀ c ∈ c?, p c) :=
  Option.decidableForallMem c?

instance decidableExistsMemChar? (c? : Option Char) : Decidable (∃ c ∈ c?, p c) :=
  Option.decidableExistsMem c?

end Deciding

namespace SymbolMatcher

/-- A match takes up at least one character. -/
def IsProper : SymbolMatcher → Prop
  | .exactly text => text ≠ []
  | .letters _ least most => 0 < least ∧ ∀ n ∈ most, 0 < n

instance (m : SymbolMatcher) : Decidable m.IsProper := by
  cases m <;> unfold IsProper <;> infer_instance

/-- A match takes up at least one character, so a sweep gets ahead with it. -/
theorem IsProper.pos_of_length? {m : SymbolMatcher} (proper : m.IsProper) {cs : List Char} {n : Nat}
    (h : m.length? cs = some n) : 0 < n := by
  cases m with
  | exactly text =>
      simp only [length?, Option.ite_none_right_eq_some, Option.some.injEq] at h
      rw [← h.2]
      exact List.length_pos_of_ne_nil proper
  | letters among least most =>
      obtain ⟨least_pos, most_pos⟩ := proper
      simp only [length?, Option.ite_none_right_eq_some, Option.some.injEq] at h
      obtain ⟨enough, rfl⟩ := h
      cases most with
      | none => exact Nat.lt_of_lt_of_le least_pos enough
      | some most =>
          have most_pos := most_pos most rfl
          simp only [Option.elim]
          omega

/-- Nothing matches at the end of a text. -/
theorem IsProper.length?_nil {m : SymbolMatcher} (proper : m.IsProper) : m.length? [] = none := by
  cases m with
  | exactly text =>
      cases text with
      | nil => exact absurd rfl proper
      | cons c text => rfl
  | letters among least most =>
      exact if_neg (Nat.not_le.mpr proper.1)

end SymbolMatcher

namespace SymbolRule

variable {rule : SymbolRule}

/-- Replace the matches from left to right, where a match may begin at once or only after the next
character. -/
def sweep (rule : SymbolRule) (ready : Bool) : List Char → List Char
  | [] => []
  | c :: cs =>
    match (if ready then rule.matcher.length? (c :: cs) else none) with
    | some n => rule.output ++ rule.sweep (!rule.guarded) (cs.drop (n - 1))
    | none => c :: rule.sweep (!rule.guarded || c != '%') cs
termination_by cs => cs.length

@[simp] theorem sweep_nil (ready : Bool) : rule.sweep ready [] = [] := by
  rw [sweep]

/-- Where no match may begin, one character passes, and a guarded replacement waits if it is a
percent sign. -/
theorem sweep_false_cons (c : Char) (cs : List Char) :
    rule.sweep false (c :: cs) = c :: rule.sweep (!rule.guarded || c != '%') cs := by
  rw [sweep]
  rfl

/-- Without a match at the front it does not matter whether one might have begun there. -/
theorem sweep_of_length?_eq_none {cs : List Char} (h : rule.matcher.length? cs = none)
    (ready : Bool) : rule.sweep ready cs = rule.sweep false cs := by
  cases cs with
  | nil => rw [sweep_nil, sweep_nil]
  | cons c cs =>
      rw [sweep, sweep, h]
      simp

/-- A match is replaced, and after it a guarded replacement waits for one character. -/
theorem sweep_of_length?_eq_some (proper : rule.matcher.IsProper) {cs : List Char} {n : Nat}
    (h : rule.matcher.length? cs = some n) :
    rule.sweep true cs = rule.output ++ rule.sweep (!rule.guarded) (cs.drop n) := by
  cases cs with
  | nil =>
      rw [proper.length?_nil] at h
      cases h
  | cons c cs =>
      obtain ⟨n, rfl⟩ := Nat.exists_eq_add_of_lt (proper.pos_of_length? h)
      rw [sweep, if_pos rfl, h]
      simp

/-- Characters that a match has taken up are skipped. -/
theorem replaceFrom_eq_drop (skip : Nat) (cs : List Char) :
    rule.replaceFrom false skip cs = rule.replaceFrom false 0 (cs.drop skip) := by
  induction skip generalizing cs with
  | zero => rfl
  | succ skip ih =>
      cases cs with
      | nil => rfl
      | cons c cs =>
          rw [replaceFrom, ih]
          rfl

/-- At a match the kept character and the symbol are written, and the rest is replaced on its own.
-/
theorem replaceFrom_of_matchAt_eq_some {atStart : Bool} {c : Char} {cs kept : List Char} {n : Nat}
    (h : rule.matchAt atStart (c :: cs) = some (kept, n)) :
    rule.replaceFrom atStart 0 (c :: cs) =
      kept ++ rule.output ++ rule.replaceFrom false 0 (cs.drop (n - 1)) := by
  rw [replaceFrom, h]
  exact congrArg _ (replaceFrom_eq_drop _ _)

/-- Without a match one character is written. -/
theorem replaceFrom_of_matchAt_eq_none {atStart : Bool} {c : Char} {cs : List Char}
    (h : rule.matchAt atStart (c :: cs) = none) :
    rule.replaceFrom atStart 0 (c :: cs) = c :: rule.replaceFrom false 0 cs := by
  rw [replaceFrom, h]

/-- A replacement that is not guarded is always ready. -/
theorem replaceFrom_of_unguarded (proper : rule.matcher.IsProper) (unguarded : rule.guarded = false)
    (atStart : Bool) (cs : List Char) : rule.replaceFrom atStart 0 cs = rule.sweep true cs := by
  induction length : cs.length using Nat.strongRecOn generalizing atStart cs with
  | ind size ih =>
      subst length
      cases cs with
      | nil => rw [replaceFrom, sweep_nil]
      | cons c cs =>
          have rest (skip : Nat) :
              rule.replaceFrom false 0 (cs.drop skip) = rule.sweep true (cs.drop skip) := by
            refine ih _ ?_ false _ rfl
            rw [List.length_drop, List.length_cons]
            omega
          have here : rule.matchAt atStart (c :: cs) =
              (rule.matcher.length? (c :: cs)).map fun n => ([], n) := by
            rw [matchAt, unguarded]
            rfl
          cases found : rule.matcher.length? (c :: cs) with
          | none =>
              rw [found] at here
              rw [replaceFrom_of_matchAt_eq_none here, sweep_of_length?_eq_none found,
                sweep_false_cons, unguarded]
              exact congrArg _ (rest 0)
          | some n =>
              rw [found] at here
              rw [replaceFrom_of_matchAt_eq_some here, sweep_of_length?_eq_some proper found,
                rest, unguarded, List.drop_cons (proper.pos_of_length? found)]
              rfl

/-- A guarded replacement is ready at the start of the text, and after every character that it lets
pass except the percent sign. -/
theorem replaceFrom_of_guarded (proper : rule.matcher.IsProper) (guarded : rule.guarded = true)
    (atStart : Bool) (cs : List Char) : rule.replaceFrom atStart 0 cs = rule.sweep atStart cs := by
  induction length : cs.length using Nat.strongRecOn generalizing atStart cs with
  | ind size ih =>
      subst length
      cases cs with
      | nil => rw [replaceFrom, sweep_nil]
      | cons c cs =>
          have rest (skip : Nat) :
              rule.replaceFrom false 0 (cs.drop skip) = rule.sweep false (cs.drop skip) := by
            refine ih _ ?_ false _ rfl
            rw [List.length_drop, List.length_cons]
            omega
          cases front : (if atStart then rule.matcher.length? (c :: cs) else none) with
          | some n =>
              obtain ⟨rfl, found⟩ := Option.ite_none_right_eq_some.mp front
              have here : rule.matchAt true (c :: cs) = some ([], n) := by
                unfold matchAt
                rw [guarded, if_pos rfl, front]
              rw [replaceFrom_of_matchAt_eq_some here, sweep_of_length?_eq_some proper found,
                rest, guarded, List.drop_cons (proper.pos_of_length? found)]
              rfl
          | none =>
              have here : rule.matchAt atStart (c :: cs) =
                  if c = '%' then none
                  else (rule.matcher.length? cs).map fun n => ([c], n + 1) := by
                unfold matchAt
                rw [guarded, if_pos rfl, front]
              rw [sweep, front, guarded]
              by_cases percent : c = '%'
              · rw [if_pos percent] at here
                rw [replaceFrom_of_matchAt_eq_none here, percent]
                exact congrArg _ (rest 0)
              · -- The character may be the one that a match keeps, so the sweep is ready after it.
                rw [if_neg percent] at here
                have ready : (!true || c != '%') = true := by simp [percent]
                rw [ready]
                cases found : rule.matcher.length? cs with
                | none =>
                    rw [found] at here
                    rw [replaceFrom_of_matchAt_eq_none here, sweep_of_length?_eq_none found true]
                    exact congrArg _ (rest 0)
                | some n =>
                    rw [found] at here
                    rw [replaceFrom_of_matchAt_eq_some here, rest,
                      sweep_of_length?_eq_some proper found, guarded]
                    rfl

/-- A replacement is a sweep from the start of the text, where a match may begin in any case. -/
theorem replaceAll_eq_sweep (proper : rule.matcher.IsProper) (cs : List Char) :
    rule.replaceAll cs = rule.sweep true cs := by
  cases guarded : rule.guarded with
  | false => exact replaceFrom_of_unguarded proper guarded true cs
  | true => exact replaceFrom_of_guarded proper guarded true cs

/-! ## Replacements of letters -/

/-- The letters that a replacement looks for. -/
def letters (rule : SymbolRule) : List Char :=
  match rule.matcher with
  | .exactly text => text
  | .letters among _ _ => among

/-- The replacement is one of runs of letters, and the percent sign is not among them. -/
def IsOfLetters (rule : SymbolRule) : Prop :=
  match rule.matcher with
  | .exactly _ => False
  | .letters among least most => (0 < least ∧ ∀ n ∈ most, 0 < n) ∧ '%' ∉ among

instance (rule : SymbolRule) : Decidable rule.IsOfLetters := by
  unfold IsOfLetters
  split <;> infer_instance

/-- The letters at the front of a text that a match could take up. -/
def frontRun (rule : SymbolRule) (cs : List Char) : List Char :=
  cs.takeWhile rule.letters.contains

/-- A text that begins with another character has no letters at the front. -/
theorem frontRun_of_head {cs : List Char} (apart : ∀ c ∈ cs.head?, c ∉ rule.letters) :
    rule.frontRun cs = [] := by
  cases cs with
  | nil => rfl
  | cons c cs =>
      have other : rule.letters.contains c = false := by simpa using apart c rfl
      rw [frontRun, List.takeWhile_cons, other]
      rfl

namespace IsOfLetters

variable (h : rule.IsOfLetters)
include h

/-- The matcher of such a replacement, with what is known of its bounds and its letters. -/
theorem exists_matcher :
    ∃ least most, rule.matcher = .letters rule.letters least most ∧
      (0 < least ∧ ∀ n ∈ most, 0 < n) ∧ '%' ∉ rule.letters := by
  unfold IsOfLetters at h
  split at h
  · cases h
  · rename_i among least most matcher
    have same : rule.letters = among := by rw [letters, matcher]
    exact ⟨least, most, by rw [matcher, same], h.1, by rw [same]; exact h.2⟩

theorem isProper : rule.matcher.IsProper := by
  obtain ⟨least, most, matcher, proper, -⟩ := h.exists_matcher
  rw [matcher]
  exact proper

/-- The percent sign is not looked for, so no match takes up that of an earlier symbol. -/
theorem percent_not_mem : '%' ∉ rule.letters := by
  obtain ⟨least, most, -, -, percent⟩ := h.exists_matcher
  exact percent

/-- A match depends only on the number of letters at the front. -/
theorem length?_congr {u v : List Char}
    (same : (rule.frontRun u).length = (rule.frontRun v).length) :
    rule.matcher.length? u = rule.matcher.length? v := by
  obtain ⟨least, most, matcher, -, -⟩ := h.exists_matcher
  simp only [frontRun] at same
  simp only [matcher, SymbolMatcher.length?, same]

/-- A match takes up letters only. -/
theorem le_of_length? {cs : List Char} {n : Nat} (found : rule.matcher.length? cs = some n) :
    n ≤ (rule.frontRun cs).length := by
  obtain ⟨least, most, matcher, -, -⟩ := h.exists_matcher
  simp only [matcher, SymbolMatcher.length?, Option.ite_none_right_eq_some,
    Option.some.injEq] at found
  obtain ⟨-, rfl⟩ := found
  rw [frontRun]
  cases most with
  | none => exact Nat.le_refl _
  | some most => exact Nat.min_le_left _ _

/-- No match begins at another character. -/
theorem length?_of_head {cs : List Char} (apart : ∀ c ∈ cs.head?, c ∉ rule.letters) :
    rule.matcher.length? cs = none := by
  have same : rule.frontRun cs = rule.frontRun [] := frontRun_of_head apart
  rw [h.length?_congr (congrArg List.length same), h.isProper.length?_nil]

/-- A text that does not begin with a letter is replaced on its own, whatever stands before it. -/
theorem sweep_append_of_head {v : List Char} (apart : ∀ c ∈ v.head?, c ∉ rule.letters)
    (ready : Bool) (u : List Char) :
    rule.sweep ready (u ++ v) = rule.sweep ready u ++ rule.sweep true v := by
  have missing := h.length?_of_head apart
  induction length : u.length using Nat.strongRecOn generalizing ready u with
  | ind size ih =>
      subst length
      cases u with
      | nil =>
          rw [List.nil_append, sweep_nil, List.nil_append, sweep_of_length?_eq_none missing,
            sweep_of_length?_eq_none missing true]
      | cons c u =>
          have same : rule.matcher.length? (c :: (u ++ v)) = rule.matcher.length? (c :: u) := by
            apply h.length?_congr
            have stop := frontRun_of_head apart
            rw [frontRun] at stop
            rw [← List.cons_append, frontRun, frontRun, List.takeWhile_append]
            split_ifs with all
            · rw [stop, List.append_nil, all]
            · rfl
          rw [List.cons_append, sweep, sweep, same]
          cases found : (if ready then rule.matcher.length? (c :: u) else none) with
          | none =>
              rw [ih u.length (Nat.lt_succ_self _) _ u rfl]
              rfl
          | some n =>
              have le : n - 1 ≤ u.length := by
                have run := h.le_of_length? (Option.ite_none_right_eq_some.mp found).2
                have part : (rule.frontRun (c :: u)).length ≤ u.length + 1 :=
                  (List.takeWhile_prefix _).length_le
                omega
              have shorter : (u.drop (n - 1)).length < (c :: u).length := by
                rw [List.length_drop, List.length_cons]
                omega
              dsimp only
              rw [List.drop_append_of_le_length le, ih _ shorter _ _ rfl, List.append_assoc]

/-- Before a text that begins with another character no match is going on. -/
theorem replaceAll_append_of_head {u v : List Char} (apart : ∀ c ∈ v.head?, c ∉ rule.letters) :
    rule.replaceAll (u ++ v) = rule.replaceAll u ++ rule.replaceAll v := by
  simp only [replaceAll_eq_sweep h.isProper]
  exact h.sweep_append_of_head apart true u

/-- A character that is not looked for passes, and it makes the sweep ready unless it is a percent
sign. -/
theorem sweep_cons_of_not_mem {c : Char} (other : c ∉ rule.letters) (ready : Bool)
    (cs : List Char) :
    rule.sweep ready (c :: cs) = c :: rule.sweep (!rule.guarded || c != '%') cs := by
  have missing : rule.matcher.length? (c :: cs) = none := by
    apply h.length?_of_head
    rintro _ ⟨⟩
    exact other
  rw [sweep_of_length?_eq_none missing, sweep_false_cons]

/-- A text without the letters stays as it is. -/
theorem replaceAll_of_not_mem {cs : List Char} (others : ∀ c ∈ cs, c ∉ rule.letters) :
    rule.replaceAll cs = cs := by
  rw [replaceAll_eq_sweep h.isProper]
  generalize true = ready
  induction cs generalizing ready with
  | nil => rw [sweep_nil]
  | cons c cs ih =>
      rw [h.sweep_cons_of_not_mem (others c List.mem_cons_self),
        ih fun c mem => others c (List.mem_cons_of_mem _ mem)]

/-- At the front of a run of letters a match takes up as many of them as it may. -/
theorem sweep_run {least : Nat} {most : Option Nat}
    (matcher : rule.matcher = .letters rule.letters least most) {run : List Char}
    (all : ∀ c ∈ run, c ∈ rule.letters) (enough : least ≤ run.length) :
    rule.sweep true run = rule.output ++
      rule.sweep (!rule.guarded) (run.drop (most.elim run.length (min run.length))) := by
  have front : run.takeWhile rule.letters.contains = run := by
    have letters : ∀ c ∈ run, rule.letters.contains c = true := by simpa using all
    rw [← List.append_nil run, List.takeWhile_append_of_pos letters, List.takeWhile_nil]
  have found : rule.matcher.length? run = some (most.elim run.length (min run.length)) := by
    rw [matcher, SymbolMatcher.length?, front, if_pos enough]
  exact sweep_of_length?_eq_some h.isProper found

/-- A run of letters that is long enough for a match without an upper limit is replaced as a
whole. -/
theorem replaceAll_run {least : Nat} (matcher : rule.matcher = .letters rule.letters least none)
    {run : List Char} (all : ∀ c ∈ run, c ∈ rule.letters) (enough : least ≤ run.length) :
    rule.replaceAll run = rule.output := by
  rw [replaceAll_eq_sweep h.isProper, h.sweep_run matcher all enough]
  simp

end IsOfLetters

/-- A text at whose end no match can begin or be going on. Its last character is no letter that is
looked for, or it belongs to a symbol and the replacement is guarded. -/
def Closes (rule : SymbolRule) (cs : List Char) : Prop :=
  ∃ c ∈ cs.getLast?, c ≠ '%' ∧
    (c ∉ rule.letters ∨ rule.guarded = true ∧ cs.dropLast.getLast? = some '%')

instance (rule : SymbolRule) (cs : List Char) : Decidable (rule.Closes cs) :=
  inferInstanceAs (Decidable (∃ c ∈ cs.getLast?, _))

/-- A text that closes is replaced on its own, whatever stands after it. -/
theorem IsOfLetters.replaceAll_append_of_closes (h : rule.IsOfLetters) {u v : List Char}
    (closes : rule.Closes u) :
    rule.replaceAll (u ++ v) = rule.replaceAll u ++ rule.replaceAll v := by
  obtain ⟨c, last, ne, ending⟩ := closes
  -- The end of `u` passes unchanged, and the sweep is ready after it.
  suffices ∃ w s, u = w ++ s ∧ (∀ c ∈ s.head?, c ∉ rule.letters) ∧ s ≠ [] ∧
      ∀ rest, rule.sweep true (s ++ rest) = s ++ rule.sweep true rest by
    obtain ⟨w, s, rfl, apart, nonempty, passes⟩ := this
    have apart' : ∀ c ∈ (s ++ v).head?, c ∉ rule.letters := by
      rw [List.head?_append_of_ne_nil s nonempty]
      exact apart
    have whole := passes []
    rw [List.append_nil, sweep_nil, List.append_nil] at whole
    simp only [replaceAll_eq_sweep h.isProper]
    rw [List.append_assoc, h.sweep_append_of_head apart', h.sweep_append_of_head apart, passes,
      whole, List.append_assoc]
  have split := List.dropLast_append_getLast? c last
  have ready : (!rule.guarded || c != '%') = true := by simp [ne]
  rcases ending with other | ⟨guarded, percent⟩
  · refine ⟨u.dropLast, [c], split.symm, ?_, List.cons_ne_nil _ _, ?_⟩
    · rintro _ ⟨⟩
      exact other
    · intro rest
      rw [List.singleton_append, h.sweep_cons_of_not_mem other, ready]
      rfl
  · have before := List.dropLast_append_getLast? '%' percent
    refine ⟨u.dropLast.dropLast, ['%', c], ?_, ?_, List.cons_ne_nil _ _, ?_⟩
    · rw [← split, ← before]
      simp
    · rintro _ ⟨⟩
      exact h.percent_not_mem
    · intro rest
      have waits : (!rule.guarded || '%' != '%') = false := by simp [guarded]
      rw [List.cons_append, h.sweep_cons_of_not_mem h.percent_not_mem, waits, List.singleton_append,
        sweep_false_cons, ready]
      rfl

end SymbolRule

end SqlLowering.Format
