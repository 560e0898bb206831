/-!
# Places in a document

Lines and columns are counted from one.
-/

namespace ViewMarkup

/-- A place in a document. -/
structure Position where
  line : Int
  column : Int
  deriving DecidableEq

/-- A stretch of a document, from its first to its last character. -/
structure SourceRange where
  start : Position
  stop : Position
  deriving DecidableEq

end ViewMarkup
