import SqlLowering.Dialect.Version

/-!
# Features that came with a version

Four constructs of the target are available only from some version on.
-/

namespace SqlLowering.Dialect

/-- A construct that older versions of the target do not have. -/
inductive Feature where
  | bitwiseAggregates
  | approxCountDistinct
  | uuid
  | specifierFormats
deriving DecidableEq, Repr

namespace Feature

/-- All features, in the order in which they are listed. -/
def all : List Feature :=
  [bitwiseAggregates, approxCountDistinct, uuid, specifierFormats]

/-- The name shown to people. -/
def text : Feature → String
  | bitwiseAggregates => "bitwise aggregates"
  | approxCountDistinct => "approx count distinct"
  | uuid => "uuid generation"
  | specifierFormats => "specifier date formats"

/-- The first version with the feature. -/
def since : Feature → Version
  | bitwiseAggregates => ⟨7, 0, 0⟩
  | approxCountDistinct => ⟨6, 0, 0⟩
  | uuid => ⟨8, 5, 0⟩
  | specifierFormats => ⟨6, 5, 0⟩

end Feature

/-- The version has the feature. -/
def Version.supports (v : Version) (f : Feature) : Bool :=
  f.since ≤ v

end SqlLowering.Dialect
