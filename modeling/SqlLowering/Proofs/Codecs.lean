import Mathlib.Data.List.Nodup
import SqlLowering.Codec.Expr
import SqlLowering.Proofs.Operands
import SqlLowering.Proofs.ReadBack

/-!
# Parts of an expression read back from JSON

What is written for a number, a type, a value, a column, a kind of match or a frame is read as the
same thing. Calls are written over arbitrary operands: if a reader of operands takes back what is
written for each operand, the call is read back with its operands changed into what the reader
gives.

Main statements: `Value.ofJson?_toJson`, `AggregateCall.ofJson?_toJson` and
`WindowCall.ofJson?_toJson`. Binary numbers are not covered, and the sign of a decimal zero is lost.
-/

namespace SqlLowering

open Json Number

/-! ## Records, lists and options -/

namespace Json

variable {α β : Type} {read : Json → Option β} {write : α → Json} {g : α → β}

/-- A list is read back if each of its items is, in the order in which they were written. -/
theorem toList?_map {xs : List α} (each : ∀ a ∈ xs, read (write a) = some (g a)) :
    toList? read (.array (xs.map write)) = some (xs.map g) := by
  rw [toList?]
  induction xs with
  | nil => rfl
  | cons a xs ih =>
      obtain ⟨first, others⟩ := List.forall_mem_cons.mp each
      rw [List.map_cons, List.mapM_cons, first, ih others]
      rfl

/-- Only a null is read as a missing value. -/
theorem toOption?_of_ne_null {j : Json} (h : j ≠ .null) :
    toOption? read j = (read j).map some := by
  cases j with
  | null => exact absurd rfl h
  | _ => rfl

/-- A value that may be missing is read back, as long as nothing that is there is written as a null.
-/
theorem toOption?_map {x : Option α} (filled : ∀ a, write a ≠ .null)
    (each : ∀ a, x = some a → read (write a) = some (g a)) :
    toOption? read (.ofOption (x.map write)) = some (x.map g) := by
  cases x with
  | none => rfl
  | some a =>
      have content := each a rfl
      simp [ofOption, toOption?_of_ne_null (filled a), content]

end Json

/-- What has a name of its own is found by it. -/
theorem find?_name {α : Type} {name : α → String} {all : List α} (distinct : (all.map name).Nodup)
    {a : α} (mem : a ∈ all) : all.find? (name · == name a) = some a := by
  cases found : all.find? (name · == name a) with
  | none => exact absurd (beq_self_eq_true _) (List.find?_eq_none.mp found a mem)
  | some b =>
      have same := List.find?_some found
      have listed : b ∈ all := List.mem_of_find?_eq_some found
      rw [List.inj_on_of_nodup_map distinct listed mem (eq_of_beq same)]

/-- A function is found by its name, as no two functions share one. -/
theorem ScalarFunction.ofName?_name (f : ScalarFunction) : ofName? f.name = some f := by
  have distinct : (all.map name).Nodup := by decide +kernel
  have mem : f ∈ all := by cases f <;> decide
  exact find?_name distinct mem

/-- The same for an operator with two operands. -/
theorem BinaryOp.ofName?_name (op : BinaryOp) : ofName? op.name = some op := by
  have distinct : (all.map name).Nodup := by decide +kernel
  have mem : op ∈ all := by cases op <;> decide
  exact find?_name distinct mem

/-- The same for an operator with one operand. -/
theorem UnaryOp.ofName?_name (op : UnaryOp) : ofName? op.name = some op := by
  have distinct : (all.map name).Nodup := by decide +kernel
  have mem : op ∈ all := by cases op <;> decide
  exact find?_name distinct mem

/-- The same for an aggregate. -/
theorem AggregateFunction.ofName?_name (f : AggregateFunction) : ofName? f.name = some f := by
  have distinct : (all.map name).Nodup := by decide +kernel
  have mem : f ∈ all := by cases f <;> decide
  exact find?_name distinct mem

/-! ## Numbers -/

namespace Json

/-- An integer of 64 bits is read back, signed or unsigned. -/
theorem Numeral.toInt?_ofInt {i : Int} (low : -9223372036854775808 ≤ i)
    (high : i < 18446744073709551616) : (ofInt i).toInt? = some i := by
  by_cases negative : i < 0
  · have bound : 0 < i.natAbs ∧ i.natAbs ≤ 9223372036854775808 := by omega
    have back : -(i.natAbs : Int) = i := by omega
    simp only [toInt?, ofInt, Text.ofDigits_digits, negative, decide_true, bound, and_self, if_true,
      back]
    rfl
  · have bound : i.natAbs < UInt64.size := by
      rw [UInt64.size]
      omega
    have back : (i.natAbs : Int) = i := by omega
    simp only [toInt?, ofInt, Text.ofDigits_digits, negative, decide_false, bound, if_true, back]
    rfl

/-- A reader with bounds takes every integer within them, as 64 bits hold the bounds. -/
theorem toIntBetween?_int {i low high : Int} (below : low ≤ i) (above : i ≤ high)
    (wide : -9223372036854775808 ≤ low) (narrow : high < 18446744073709551616) :
    toIntBetween? low high (.int i) = some i := by
  rw [int, toIntBetween?, Numeral.toInt?_ofInt (by omega) (by omega)]
  simp [below, above]

/-- A signed word of at most 64 bits is read back. -/
theorem toSigned?_int (bits : Nat) {i : Int} (word : bits ≤ 64)
    (low : -(Nat.pow 2 (bits - 1) : Int) ≤ i) (high : i < (Nat.pow 2 (bits - 1) : Int)) :
    toSigned? bits (.int i) = some i := by
  have most : Nat.pow 2 (bits - 1) ≤ Nat.pow 2 63 := Nat.pow_le_pow_right (by decide) (by omega)
  have bound : Nat.pow 2 63 = 9223372036854775808 := by decide
  exact toIntBetween?_int low (by omega) (by omega) (by omega)

/-- An unsigned word of at most 64 bits is read back. -/
theorem toUnsigned?_nat {bits n : Nat} (word : bits ≤ 64) (fits : n < Nat.pow 2 bits) :
    toUnsigned? bits (.nat n) = some n := by
  have most : Nat.pow 2 bits ≤ Nat.pow 2 64 := Nat.pow_le_pow_right (by decide) word
  have bound : Nat.pow 2 64 = 18446744073709551616 := by decide
  rw [toUnsigned?, nat, toIntBetween?_int (by omega) (by omega) (by omega) (by omega)]
  rfl

theorem toUnsigned?_uint8 (n : UInt8) :
    (toUnsigned? 8 (.nat n.toNat)).map Nat.toUInt8 = some n := by
  rw [toUnsigned?_nat (by decide) n.toNat_lt, Option.map_some]
  exact congrArg some UInt8.ofNat_toNat

end Json

/-! ## Types and values -/

/-- A type is read back with its digits; all other types are a name only. -/
theorem DataType.ofJson?_toJson (t : DataType) : ofJson? t.toJson = some t := by
  cases t with
  | decimal precision scale =>
      have first : toUnsigned? 8 (.nat precision.toNat) = some precision.toNat :=
        toUnsigned?_nat (by decide) precision.toNat_lt
      have second : toUnsigned? 8 (.nat scale.toNat) = some scale.toNat :=
        toUnsigned?_nat (by decide) scale.toNat_lt
      simp [ofJson?, toJson, tagged, variant?, record?, field?, first, second]
  | _ => rfl

namespace Value

/-- A binary number. -/
def isApproximate : Value → Bool
  | .float _ | .double _ => true
  | _ => false

/-- A decimal zero with a sign. -/
def isNegativeZero : Value → Bool
  | .decimal d => d.negative && d.size == 0
  | _ => false

/-- The value without the sign of a negative decimal zero. -/
def plainZero : Value → Value
  | .decimal d => .decimal d.plainZero
  | v => v

/-- Only a negative zero is changed. -/
theorem plainZero_eq_iff {v : Value} : v.plainZero = v ↔ v.isNegativeZero = false := by
  cases v with
  | decimal d => simp [plainZero, isNegativeZero, Decimal.plainZero_eq_iff]
  | _ => exact ⟨fun _ => rfl, fun _ => rfl⟩

/-- A variant with content is not the null value. -/
theorem ofJson?_tagged {name : String} (j : Json) (other : name ≠ "Null") :
    ofJson? (tagged name j) = ofContent? name j := by
  have unit : unitName? (tagged name j) ≠ some "Null" := by
    cases j <;> simp [unitName?, tagged, variant?, other]
  rw [ofJson?, if_neg unit]
  rfl

/-- A value that is not a binary number is read back. -/
theorem ofJson?_toJson {v : Value} (plain : v.isApproximate = false) :
    ofJson? v.toJson = some v.plainZero := by
  cases v with
  | null => rfl
  | bool b => rfl
  | byte n =>
      have number := toSigned?_int 8 (by decide) n.le_toInt n.toInt_lt
      rw [toJson, ofJson?_tagged _ (by decide)]
      simp [ofContent?, number, plainZero]
  | short n =>
      have number := toSigned?_int 16 (by decide) n.le_toInt n.toInt_lt
      rw [toJson, ofJson?_tagged _ (by decide)]
      simp [ofContent?, number, plainZero]
  | int n =>
      have number := toSigned?_int 32 (by decide) n.le_toInt n.toInt_lt
      rw [toJson, ofJson?_tagged _ (by decide)]
      simp [ofContent?, number, plainZero]
  | long n =>
      have number := toSigned?_int 64 (by decide) n.le_toInt n.toInt_lt
      rw [toJson, ofJson?_tagged _ (by decide)]
      simp [ofContent?, number, plainZero]
  | float x => cases plain
  | double x => cases plain
  | decimal d =>
      rw [toJson, ofJson?_tagged _ (by decide)]
      simp [ofContent?, decimalOfJson?, d.parse?_text, plainZero]
  | string s => rfl
  | binary bytes =>
      have items : toList? (fun b => (b.toUnsigned? 8).map Nat.toUInt8)
          (.array (bytes.map fun b => .nat b.toNat)) = some (bytes.map id) :=
        toList?_map fun b _ => toUnsigned?_uint8 b
      rw [List.map_id] at items
      rw [toJson, ofJson?_tagged _ (by decide), ofContent?, items]
      rfl
  | date d =>
      rw [toJson, ofJson?_tagged _ (by decide)]
      simp [ofContent?, toString?, d.parse?_text, plainZero]
  | timestamp t =>
      rw [toJson, ofJson?_tagged _ (by decide)]
      simp [ofContent?, toString?, t.parse?_text, plainZero]
  | interval months days micros =>
      have first := toSigned?_int 32 (by decide) months.le_toInt months.toInt_lt
      have second := toSigned?_int 32 (by decide) days.le_toInt days.toInt_lt
      have third := toSigned?_int 64 (by decide) micros.le_toInt micros.toInt_lt
      rw [toJson, ofJson?_tagged _ (by decide)]
      simp [ofContent?, record?, field?, first, second, third, plainZero]

end Value

/-! ## Columns, matches and frames -/

/-- A column is read back with its qualifier, or without one. -/
theorem ColumnRef.ofJson?_toJson (c : ColumnRef) : ofJson? c.toJson = some c := by
  obtain ⟨id, name, qualifier, type⟩ := c
  have number : toUnsigned? 64 (.nat id.toNat) = some id.toNat :=
    toUnsigned?_nat (by decide) id.toNat_lt
  have owner : toOption? toString? (.ofOption (qualifier.map .string)) = some qualifier := by
    cases qualifier <;> rfl
  simp [ofJson?, toJson, record?, field?, number, owner, toString?, type.ofJson?_toJson]

/-- A kind of match is read back with its escape character. -/
theorem MatchKind.ofJson?_toJson (kind : MatchKind) : ofJson? kind.toJson = some kind := by
  cases kind with
  | like escape => simp [ofJson?, toJson, tagged, variant?, record?, field?, toChar?, toString?]
  | regex => rfl
  | regexFromStart => rfl

theorem SortDirection.ofJson?_toJson (direction : SortDirection) :
    ofJson? direction.toJson = some direction := by
  cases direction <;> rfl

theorem NullOrdering.ofJson?_toJson (nulls : NullOrdering) : ofJson? nulls.toJson = some nulls := by
  cases nulls <;> rfl

theorem FrameKind.ofJson?_toJson (kind : FrameKind) : ofJson? kind.toJson = some kind := by
  cases kind <;> rfl

/-- A boundary is read back with its offset, which may be any signed word of 64 bits. -/
theorem FrameBoundary.ofJson?_toJson (boundary : FrameBoundary) :
    ofJson? boundary.toJson = some boundary := by
  cases boundary with
  | offset n =>
      have number := toSigned?_int 64 (by decide) n.le_toInt n.toInt_lt
      simp [ofJson?, toJson, tagged, variant?, number]
  | _ => rfl

/-- A frame is read back with its kind and both of its boundaries. -/
theorem WindowFrame.ofJson?_toJson (frame : WindowFrame) : ofJson? frame.toJson = some frame := by
  simp [ofJson?, toJson, record?, field?, frame.kind.ofJson?_toJson, frame.start.ofJson?_toJson,
    frame.stop.ofJson?_toJson]

/-! ## Calls over operands -/

section Calls

variable {ε δ : Type} {write : ε → Json} {operand : Json → Option δ} {g : ε → δ}

/-- An aggregate is read back over what is read for its operands. An operand must not be written as
a null, since that is how a missing condition is written. -/
theorem AggregateCall.ofJson?_toJson (call : AggregateCall ε) (filled : ∀ c, write c ≠ .null)
    (each : ∀ c ∈ call.children, operand (write c) = some (g c)) :
    ofJson? operand (call.mapOperands fun c _ => write c).toJson =
      some (call.mapOperands fun c _ => g c) := by
  have args := toList?_map fun c mem => each c (mem_children_of_mem_args mem)
  have filter := toOption?_map filled fun c only => each c (mem_children_of_filter only)
  simp [ofJson?, toJson, mapOperands, record?, field?, unitName?, variant?, toBool?, args, filter,
    call.func.ofName?_name]

/-- A sort key is read back over what is read for its operand. -/
theorem SortKey.ofJson?_toJson (key : SortKey ε)
    (read : operand (write key.expr) = some (g key.expr)) :
    ofJson? operand (toJson ⟨write key.expr, key.direction, key.nulls⟩) =
      some ⟨g key.expr, key.direction, key.nulls⟩ := by
  simp [ofJson?, toJson, record?, field?, read, key.direction.ofJson?_toJson,
    key.nulls.ofJson?_toJson]

namespace WindowFunction

/-- Only a function with a null for content could be taken for one without content. -/
theorem ofJson?_tagged {name : String} {content : Json} (filled : content ≠ .null) :
    ofJson? operand (tagged name content) = ofContent? operand name content := by
  have unit : unitName? (tagged name content) = none := by
    cases content with
    | null => exact absurd rfl filled
    | _ => rfl
  rw [ofJson?, unit]
  rfl

/-- The operands of a value from another row are read back with the offset between them. -/
theorem shiftOfJson?_shiftToJson {input : ε} {default : Option ε} (offset : Int64)
    (filled : ∀ c, write c ≠ .null) (first : operand (write input) = some (g input))
    (each : ∀ c, default = some c → operand (write c) = some (g c)) :
    shiftOfJson? operand (shiftToJson (write input) offset (default.map write)) =
      some (g input, offset, default.map g) := by
  have number := toSigned?_int 64 (by decide) offset.le_toInt offset.toInt_lt
  have other := toOption?_map filled each
  simp [shiftOfJson?, shiftToJson, record?, field?, first, number, other]

/-- A window function is read back over what is read for its operands, each function under its own
name. -/
theorem ofJson?_toJson (f : WindowFunction ε) (filled : ∀ c, write c ≠ .null)
    (each : ∀ c ∈ f.children, operand (write c) = some (g c)) :
    ofJson? operand (f.mapOperands fun c _ => write c).toJson =
      some (f.mapOperands fun c _ => g c) := by
  cases f with
  | aggregate call =>
      have whole := call.ofJson?_toJson filled each
      rw [mapOperands, toJson, ofJson?_tagged (by rintro ⟨⟩), ofContent?]
      exact congrArg (Option.map WindowFunction.aggregate) whole
  | ntile buckets =>
      have only := each buckets (mem_children_ntile buckets)
      rw [mapOperands, toJson, ofJson?_tagged (filled buckets), ofContent?, only]
      rfl
  | lag input offset default =>
      have shift := shiftOfJson?_shiftToJson offset filled
        (each input (mem_children_lag input offset default))
        fun c only => each c (mem_children_of_lag_default only)
      rw [mapOperands, toJson, Option.pmap_eq_map, ofJson?_tagged (by rintro ⟨⟩), ofContent?, shift]
      simp [mapOperands]
  | lead input offset default =>
      have shift := shiftOfJson?_shiftToJson offset filled
        (each input (mem_children_lead input offset default))
        fun c only => each c (mem_children_of_lead_default only)
      rw [mapOperands, toJson, Option.pmap_eq_map, ofJson?_tagged (by rintro ⟨⟩), ofContent?, shift]
      simp [mapOperands]
  | firstValue input =>
      have only := each input (mem_children_firstValue input)
      rw [mapOperands, toJson, ofJson?_tagged (filled input), ofContent?, only]
      rfl
  | lastValue input =>
      have only := each input (mem_children_lastValue input)
      rw [mapOperands, toJson, ofJson?_tagged (filled input), ofContent?, only]
      rfl
  | nthValue input n =>
      have only := each input (mem_children_nthValue input n)
      have number := toSigned?_int 64 (by decide) n.le_toInt n.toInt_lt
      rw [mapOperands, toJson, ofJson?_tagged (by rintro ⟨⟩), ofContent?]
      simp [only, number, mapOperands]
  | _ => rfl

end WindowFunction

/-- A window is read back over what is read for its operands, with the frame that it may have. -/
theorem WindowCall.ofJson?_toJson (call : WindowCall ε) (filled : ∀ c, write c ≠ .null)
    (each : ∀ c ∈ call.children, operand (write c) = some (g c)) :
    ofJson? operand (call.mapOperands fun c _ => write c).toJson =
      some (call.mapOperands fun c _ => g c) := by
  have func := call.func.ofJson?_toJson filled fun c mem => each c (mem_children_of_mem_func mem)
  have partitions := toList?_map fun c mem => each c (mem_children_of_mem_partitionBy mem)
  have orders := toList?_map fun key mem =>
    SortKey.ofJson?_toJson key (each key.expr (mem_children_of_mem_orderBy mem))
  have frame : toOption? WindowFrame.ofJson? (.ofOption (call.frame.map WindowFrame.toJson)) =
      some (call.frame.map id) :=
    toOption?_map (fun frame => by rintro ⟨⟩) fun frame _ => frame.ofJson?_toJson
  simp [ofJson?, toJson, mapOperands, record?, field?, Function.comp_def, func, partitions,
    orders, frame]

end Calls

end SqlLowering
