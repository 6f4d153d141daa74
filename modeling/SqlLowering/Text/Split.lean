/-!
# Splitting at a separator

A text with `n` separators has `n + 1` parts, some of them perhaps empty.
-/

namespace SqlLowering.Text

/-- The parts of a text between the occurrences of a separator. -/
def splitAt (sep : Char) : List Char → List (List Char)
  | [] => [[]]
  | c :: cs =>
    if c = sep then
      [] :: splitAt sep cs
    else
      match splitAt sep cs with
      | [] => [[c]]
      | part :: parts => (c :: part) :: parts

/-- There is always a first part. -/
theorem splitAt_ne_nil (sep : Char) (cs : List Char) : splitAt sep cs ≠ [] := by
  cases cs with
  | nil => simp [splitAt]
  | cons c cs =>
    by_cases h : c = sep
    · simp [splitAt, h]
    · simp only [splitAt, if_neg h]
      split <;> simp

end SqlLowering.Text
