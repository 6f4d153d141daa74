import SqlLowering.Proofs.Precedence
import SqlLowering.Proofs.VersionTexts

/-!
# Window frames read back from their texts

An end of a window frame is written in two words. A distance is written without its sign, which is
the second word, so it can be read back only if nothing is lost with the sign. The least offset is
where something could be lost: its size is one more than the greatest offset and has no place among
the numbers of 64 bits with a sign. It is a number of 64 bits without one, and is written as such.
Zero is the other edge. It counts as following, and no other offset has its text.

Main statement: `FrameBoundary.ofText?_sql`. The texts of whole frames are read back too, because
the two words of each end are found again among the seven words of the frame.
-/

namespace SqlLowering

open Text Fragment

namespace Text

/-! ## Words -/

/-- The words of a text, which stand between its spaces. -/
def wordsOf (s : String) : List String :=
  (splitAt ' ' s.toList).map String.ofList

variable {s : String}

/-- A text without a space is one word. -/
theorem wordsOf_of_not_mem (absent : ' ' ∉ s.toList) : wordsOf s = [s] := by
  rw [wordsOf, splitAt_of_not_mem absent, List.map_singleton, String.ofList_toList]

/-- The first space ends the first word, so the words of the rest can be found on their own. -/
theorem wordsOf_append (absent : ' ' ∉ s.toList) (rest : String) :
    wordsOf (s ++ " " ++ rest) = s :: wordsOf rest := by
  have cut : (s ++ " " ++ rest).toList = s.toList ++ ' ' :: rest.toList := by
    simp
  rw [wordsOf, cut, splitAt_append_cons absent, List.map_cons, String.ofList_toList, wordsOf]

/-- The text of a number has digits in it and nothing else. -/
theorem not_mem_natText {c : Char} (n : Nat) (other : c.isDigit = false) :
    c ∉ (natText n).toList := by
  intro mem
  rw [natText, String.toList_ofList] at mem
  rw [isDigit_of_mem_digits mem] at other
  cases other

/-- A number is read from its text. -/
theorem unsigned?_natText (n : Nat) : unsigned? (natText n).toList = some n := by
  rw [natText, String.toList_ofList]
  exact Dialect.Version.unsigned?_eq_some_iff.mpr
    ⟨digits n, .inl rfl, Nat.toDigits_ne_nil, fun _ => isDigit_of_mem_digits, ofDigits_digits n⟩

end Text

/-! ## Ends of a frame -/

namespace FrameBoundary

/-- The end at a distance, if the distance is a number of 64 bits with a sign. -/
def offset? (i : Int) : Option FrameBoundary :=
  if (Int64.ofInt i).toInt = i then some (.offset (.ofInt i)) else none

/-- Read an end of a window frame from its two words: a count, or fixed words. -/
def ofWords? (first second : String) : Option FrameBoundary :=
  match unsigned? first.toList, second with
  | some k, "PRECEDING" => offset? (-.ofNat k)
  | some k, "FOLLOWING" => offset? (.ofNat k)
  | some _, _ => none
  | none, second =>
    match first, second with
    | "UNBOUNDED", "PRECEDING" => some .unboundedPreceding
    | "UNBOUNDED", "FOLLOWING" => some .unboundedFollowing
    | "CURRENT", "ROW" => some .currentRow
    | _, _ => none

/-- Read an end of a window frame. -/
def ofText? (s : String) : Option FrameBoundary :=
  match wordsOf s with
  | [first, second] => ofWords? first second
  | _ => none

/-- Every offset is a distance that fits, also the least one. -/
theorem offset?_toInt (n : Int64) : offset? n.toInt = some (.offset n) := by
  rw [offset?, Int64.ofInt_toInt, if_pos rfl]

/-- Before the current row a count is a negative distance. -/
theorem ofWords?_preceding (k : Nat) :
    ofWords? (natText k) "PRECEDING" = offset? (-.ofNat k) := by
  unfold ofWords?
  rw [unsigned?_natText]
  rfl

/-- After the current row it is a distance as it stands. -/
theorem ofWords?_following (k : Nat) : ofWords? (natText k) "FOLLOWING" = offset? (.ofNat k) := by
  unfold ofWords?
  rw [unsigned?_natText]
  rfl

/-- An end is written in two words, from which it is read. -/
structure IsWritten (b : FrameBoundary) (first second : String) : Prop where
  sql : b.fragment.sql = first ++ " " ++ second
  first_single : ' ' ∉ first.toList
  second_single : ' ' ∉ second.toList
  read : ofWords? first second = some b

/-- The size of an offset is the offset or its opposite, by the second word. -/
theorem isWritten_offset (n : Int64) :
    (offset n).IsWritten (natText n.toInt.natAbs) (if n < 0 then "PRECEDING" else "FOLLOWING") where
  sql := by
    rw [fragment, sql_concat, String.append_assoc]
    rfl
  first_single := not_mem_natText _ rfl
  second_single := by
    split <;> decide
  read := by
    by_cases negative : n < 0
    · have below : n.toInt < 0 := Int64.lt_iff_toInt_lt.mp negative
      have opposite : -Int.ofNat n.toInt.natAbs = n.toInt := by
        rw [Int.ofNat_eq_natCast]
        omega
      rw [if_pos negative, ofWords?_preceding, opposite, offset?_toInt]
    · have above : ¬ n.toInt < 0 := fun below => negative (Int64.lt_iff_toInt_lt.mpr below)
      have same : Int.ofNat n.toInt.natAbs = n.toInt := by
        rw [Int.ofNat_eq_natCast]
        omega
      rw [if_neg negative, ofWords?_following, same, offset?_toInt]

/-- Every end is written in two words, with an offset or without. -/
theorem exists_isWritten (b : FrameBoundary) : ∃ first second, b.IsWritten first second := by
  cases b with
  | unboundedPreceding =>
      exact ⟨"UNBOUNDED", "PRECEDING", by decide, by decide, by decide, rfl⟩
  | unboundedFollowing =>
      exact ⟨"UNBOUNDED", "FOLLOWING", by decide, by decide, by decide, rfl⟩
  | currentRow => exact ⟨"CURRENT", "ROW", by decide, by decide, by decide, rfl⟩
  | offset n => exact ⟨_, _, isWritten_offset n⟩

/-- Every end is read from its text, as the space between its words is the only one. -/
theorem ofText?_fragment (b : FrameBoundary) : ofText? b.fragment.sql = some b := by
  obtain ⟨first, second, written⟩ := b.exists_isWritten
  rw [written.sql, ofText?, wordsOf_append written.first_single,
    wordsOf_of_not_mem written.second_single]
  exact written.read

end FrameBoundary

/-! ## Frames -/

namespace WindowFrame

/-- Read the unit of a frame. -/
def kindOfWord? : String → Option FrameKind
  | "ROWS" => some .rows
  | "RANGE" => some .range
  | _ => none

/-- Read a frame: its unit and its two ends. -/
def ofText? (s : String) : Option WindowFrame :=
  match wordsOf s with
  | [kind, "BETWEEN", first, second, "AND", third, fourth] => do
    let kind ← kindOfWord? kind
    let start ← FrameBoundary.ofWords? first second
    let stop ← FrameBoundary.ofWords? third fourth
    some ⟨kind, start, stop⟩
  | _ => none

/-- The seven words of a frame. -/
theorem wordsOf_fragment {frame : WindowFrame} {first second third fourth : String}
    (start : frame.start.IsWritten first second) (stop : frame.stop.IsWritten third fourth) :
    ∃ kind, kindOfWord? kind = some frame.kind ∧
      wordsOf frame.fragment.sql = [kind, "BETWEEN", first, second, "AND", third, fourth] := by
  obtain ⟨kind, known, single, shape⟩ : ∃ kind, kindOfWord? kind = some frame.kind ∧
      ' ' ∉ kind.toList ∧ frame.fragment =
        words [.raw kind, .raw "BETWEEN", frame.start.fragment, .raw "AND",
          frame.stop.fragment] := by
    cases h : frame.kind with
    | rows => exact ⟨"ROWS", rfl, by decide, by rw [fragment, h]⟩
    | range => exact ⟨"RANGE", rfl, by decide, by rw [fragment, h]⟩
  have text : frame.fragment.sql = kind ++ " " ++ ("BETWEEN" ++ " " ++ (first ++ " " ++
      (second ++ " " ++ ("AND" ++ " " ++ (third ++ " " ++ fourth))))) := by
    rw [shape]
    simp only [words, join, sql, sqlOfParts, sqlAfter, start.sql, stop.sql, String.append_assoc,
      String.append_empty]
  refine ⟨kind, known, ?_⟩
  rw [text, wordsOf_append single, wordsOf_append (by decide), wordsOf_append start.first_single,
    wordsOf_append start.second_single, wordsOf_append (by decide),
    wordsOf_append stop.first_single, wordsOf_of_not_mem stop.second_single]

/-- Every frame is read from its text, from two of the seven words for each end. -/
theorem ofText?_fragment (frame : WindowFrame) : ofText? frame.fragment.sql = some frame := by
  obtain ⟨first, second, start⟩ := frame.start.exists_isWritten
  obtain ⟨third, fourth, stop⟩ := frame.stop.exists_isWritten
  obtain ⟨kind, known, parts⟩ := wordsOf_fragment start stop
  rw [ofText?, parts]
  simp only [known, start.read, stop.read, Option.bind_eq_bind, Option.bind_some]

end WindowFrame

namespace FrameBoundary

/-- The ends of a window frame are written without loss. Every end is read back from its text, down
to the least offset of 64 bits, so no two ends have one text. The size of an offset, written without
its sign, is a number of 64 bits. Whole frames are read back from their texts as well. -/
theorem ofText?_sql :
    (∀ b : FrameBoundary, ofText? b.fragment.sql = some b) ∧
    Function.Injective (fun b : FrameBoundary => b.fragment.sql) ∧
    (∀ n : Int64, ∃ size : UInt64, size.toNat = n.toInt.natAbs ∧
      (offset n).fragment.sql =
        natText size.toNat ++ " " ++ if n < 0 then "PRECEDING" else "FOLLOWING") ∧
    ∀ frame : WindowFrame, WindowFrame.ofText? frame.fragment.sql = some frame := by
  refine ⟨ofText?_fragment, ?_, ?_, WindowFrame.ofText?_fragment⟩
  · intro b c same
    have read := b.ofText?_fragment
    rw [show b.fragment.sql = c.fragment.sql from same, c.ofText?_fragment] at read
    exact (Option.some.inj read).symm
  · intro n
    have lower := n.le_toInt
    have upper := n.toInt_lt
    have bound : n.toInt.natAbs < UInt64.size := by
      rw [UInt64.size]
      omega
    have size : (UInt64.ofNat n.toInt.natAbs).toNat = n.toInt.natAbs :=
      UInt64.toNat_ofNat_of_lt bound
    refine ⟨UInt64.ofNat n.toInt.natAbs, size, ?_⟩
    rw [size]
    exact (isWritten_offset n).sql

/-- The size of the least offset is a distance only before the current row, and zero follows. -/
theorem ofText?_sql_of_least_offset :
    ofText? "9223372036854775808 PRECEDING" = some (.offset Int64.minValue) ∧
      ofText? "9223372036854775808 FOLLOWING" = none ∧
      ofText? "0 FOLLOWING" = some (.offset 0) := by
  have least : (offset Int64.minValue).fragment.sql = "9223372036854775808 PRECEDING" := by
    decide +kernel
  have zero : (offset 0).fragment.sql = "0 FOLLOWING" := by
    decide +kernel
  obtain ⟨read, -⟩ := ofText?_sql
  exact ⟨least ▸ read _, by decide +kernel, zero ▸ read _⟩

end FrameBoundary

end SqlLowering
