import ViewMarkup.Text.CodePoint

/-!
# What can be wrong with the markup itself
-/

namespace ViewMarkup

/-- Why a text is not well-formed markup. -/
inductive XmlFault where
  | noElement
  | invalidToken
  | unclosedToken
  | mismatchedTag
  | duplicateAttribute
  | junkAfterDocument
  | undefinedEntity
  | invalidCharacterNumber
  | misplacedDeclaration
  | unclosedCData
  deriving DecidableEq

namespace XmlFault

def message : XmlFault → Text
  | noElement => "no element found"
  | invalidToken => "not well-formed (invalid token)"
  | unclosedToken => "unclosed token"
  | mismatchedTag => "mismatched tag"
  | duplicateAttribute => "duplicate attribute"
  | junkAfterDocument => "junk after document element"
  | undefinedEntity => "undefined entity"
  | invalidCharacterNumber => "reference to invalid character number"
  | misplacedDeclaration => "XML or text declaration not at start of entity"
  | unclosedCData => "unclosed CDATA section"

end XmlFault

end ViewMarkup
