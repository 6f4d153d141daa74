import SqlLowering.Dialect.Columns
import SqlLowering.Dialect.Feature

/-!
# Contexts

What the text of an expression depends on besides the expression itself: the version of the target
and the names of columns there.
-/

namespace SqlLowering.Dialect

/-- The version of the target and the resolver of columns. -/
structure Context where
  version : Version := .latest
  resolver : Resolver := quotedColumns

namespace Context

/-- The target has the feature. -/
def supports (ctx : Context) (f : Feature) : Bool :=
  ctx.version.supports f

/-- The text that shows a context to people; the resolver is left out. -/
def text (ctx : Context) : String :=
  let part (n : UInt32) : String := Text.natText n.toNat
  "TranslationContext \x7b version: Version \x7b major: " ++ part ctx.version.major ++
    ", minor: " ++ part ctx.version.minor ++ ", patch: " ++ part ctx.version.patch ++
    " \x7d, .. \x7d"

end Context

end SqlLowering.Dialect
