import ViewMarkup.Text.Basic

/-!
# What can be wrong with the nesting of tags
-/

namespace ViewMarkup

/-- Why a tag cannot stand where it stands. -/
inductive TagFault where
  | secondRoot (name : Text)
  | noParent (name : Text)
  | misplacedTemplate (parent : Option Text)
  | misplacedProperty (name : Text) (parent : Option Text)
  | unsuitableProperty (name parent : Text)
  | slotInFallback
  | slotContentInSlot
  | slotContentOutsideCustom (name : Text)
  | repeatedSlotContent (name : Text)
  | secondChild (parent : Text)
  | notTemplate (parent : Text)
  | missingKey (name parent : Text)
  | unknownNamespace (qualifier name : Text)
  | brokenSlot
  | mixedSlotContent (name : Text)
  | noRoot
  deriving DecidableEq

namespace TagFault

/-- How the parent of a tag is named. -/
def parentName (parent : Option Text) : Text :=
  parent.getD "None"

def message : TagFault → Text
  | secondRoot name =>
    "Invalid element " ++ name ++ ". Components can only have a single root view"
  | noParent name => "Invalid tag '" ++ name ++ "'. Tag has no parent"
  | misplacedTemplate parent =>
    "Template tags can only be nested inside template properties. Parent tag: " ++
      parentName parent
  | misplacedProperty name parent =>
    "Property '" ++ name ++ "' can only be nested inside a view tag. Parent tag: " ++
      parentName parent
  | unsuitableProperty name parent =>
    "Property '" ++ name ++ "' is not suitable for parent '" ++ parent ++ "'"
  | slotInFallback => "Cannot declare a slot inside slot fallback scope"
  | slotContentInSlot => "Cannot nest slot content inside a slot"
  | slotContentOutsideCustom name =>
    "Invalid tag '" ++ name ++ "'. Can only nest slot content inside custom component tags"
  | repeatedSlotContent name =>
    "Invalid tag '" ++ name ++ "'. View already contains a slot content tag"
  | secondChild parent =>
    "Tag '" ++ parent ++ "' does not accept more than a single nested element"
  | notTemplate parent => "Property '" ++ parent ++ "' must be an array of templates"
  | missingKey name parent =>
    "Tag '" ++ name ++ "' inside '" ++ parent ++ "' requires a non-empty 'key' attribute"
  | unknownNamespace qualifier name =>
    "Unknown namespace prefix '" ++ qualifier ++ "' of element '" ++ name ++ "'"
  | brokenSlot => "Invalid slot syntax for slot fallback views"
  | mixedSlotContent name =>
    "Cannot mix common views or properties with slot content inside tag '" ++ name ++ "'"
  | noRoot => "Document does not contain a root view"

end TagFault

end ViewMarkup
