import ViewMarkup.Binding.Callbacks
import ViewMarkup.Options

/-!
# Attributes of views

An attribute sets a property, listens to an event or binds either to the view model.  Some names
have another meaning and yield no code of their own.
-/

namespace ViewMarkup

open Script (Node)

namespace Attribute

/-- The attribute that names the module with the code of a document. -/
def codeFile : Text := "codeFile"

/-- The attribute that names the style sheet of a document. -/
def cssFile : Text := "cssFile"

/-- What declares a module under a name. -/
def namespaceMark : Text := "xmlns"

/-- What marks the listener of an event. -/
def eventMark : Text := "on"

/-- The attribute that says which slot a view is for. -/
def slotAttribute : Text := "slot"

/-- The name of a slot that has none. -/
def defaultSlot : Text := "default"

/-- The names that yield no code. -/
def silent : List Text :=
  [slotAttribute, namespaceMark, codeFile, cssFile]

/-- What an attribute comes to. -/
inductive Meaning where
  /-- It yields no code. -/
  | nothing
  /-- It tries to set the binding context, which is always inherited. -/
  | inheritedContext
  | item (item : Attribute)

/-- Tells what an attribute of a tag means. -/
def classify (options : Options) (tagName : Text) (attributes : AttributeMap)
    (name value : Text) : Meaning :=
  let (localName, qualifier) := Name.split name
  let otherPlatform := qualifier.any fun q => Name.isPlatform q && !options.matchesPlatform q
  if silent.contains name || qualifier = some namespaceMark || otherPlatform then .nothing
  else if localName = Text.ofString "bindingContext" then .inheritedContext
  else
    let value := match options.formatter with
      | some format => (format value localName tagName attributes).getD []
      | none => value
    let isEvent := decide (qualifier = some eventMark)
    .item {
      name
      propertyName := localName
      qualifier
      value
      isEvent
      isSubProperty := !isEvent && localName.contains (.char '.')
      isBinding := options.useDataBinding && Binding.isBinding value }

/-- What is said about an attempt to set the binding context. -/
def contextWarning (name tagName : Text) : Text :=
  "Attribute '" ++ name ++ "' of '" ++ tagName ++
    "' is ignored. The binding context is inherited from the parent view"

/-- The statement that sets a property or an event listener to the value as it stands. -/
def setter (settings : Settings) (index : Int) (item : Attribute) : Node :=
  let element : Node := .identifier (settings.elementName index)
  if item.isEvent then
    Binding.statement (Binding.runtimeCall "setEventListener" [element, .string item.propertyName,
      .accessNamed (.identifier "moduleExports") item.value true])
  else if item.isSubProperty then
    let (owner, name) := Binding.splitPath element item.propertyName
    Binding.statement (.logical .and owner
      (Binding.runtimeCall "setPropertyValue" [owner, .string name, .string item.value]))
  else
    Binding.statement (Binding.runtimeCall "setPropertyValue"
      [element, .string item.propertyName, .string item.value])

end Attribute

end ViewMarkup
