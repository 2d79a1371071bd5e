/-!
# Variants of the JSON grammar
-/

namespace Recognizer.Json

/-- The optional parts of the grammar. The smallest grammar has none of them. -/
structure Options where
  /-- `true`, `false` and `null` are values. -/
  literals : Bool := false
  /-- A document may start and end with whitespace. -/
  surroundingWhitespace : Bool := false
  /-- Strings hold no raw characters up to U+001F. -/
  strictStrings : Bool := false
  deriving DecidableEq

namespace Options

/-- The JSON texts of RFC 8259. -/
def rfc8259 : Options :=
  ⟨true, true, true⟩

/-- Are `true`, `false` and `null` values? -/
def withLiterals (o : Options) (enabled : Bool) : Options :=
  { o with literals := enabled }

/-- May a document be padded with whitespace? -/
def withSurroundingWhitespace (o : Options) (enabled : Bool) : Options :=
  { o with surroundingWhitespace := enabled }

/-- Must characters up to U+001F be escaped in strings? -/
def withStrictStrings (o : Options) (enabled : Bool) : Options :=
  { o with strictStrings := enabled }

end Options

end Recognizer.Json
