import ViewMarkup.Name
import ViewMarkup.Settings

/-!
# Options

What may differ from one document to the next.
-/

namespace ViewMarkup

/-- The attributes of a tag, in document order. -/
abbrev AttributeMap := List (Text × Text)

namespace AttributeMap

/-- The value of an attribute. -/
def get? (attributes : AttributeMap) (name : Text) : Option Text :=
  attributes.lookup name

/-- Sets an attribute.  A name that is already there keeps its place and takes the new value. -/
def insert (name value : Text) : AttributeMap → AttributeMap
  | [] => [(name, value)]
  | item :: rest => if item.1 = name then (name, value) :: rest else item :: insert name value rest

/-- The map of a list of attributes, of which a later one replaces an earlier one. -/
def ofList (items : List (Text × Text)) : AttributeMap :=
  items.foldl (fun attributes (name, value) => attributes.insert name value) []

/-- The value of an attribute that is there and not empty. -/
def nonEmpty? (attributes : AttributeMap) (name : Text) : Option Text :=
  (attributes.get? name).filter fun value => !value.isEmpty

end AttributeMap

/-- Replaces the value of an attribute, given the value, the local name of the attribute, the name
of the tag and all its attributes.  No answer is the empty value. -/
abbrev Formatter := (value localName tagName : Text) → AttributeMap → Option Text

/-- The options for one document. -/
structure Options where
  settings : Settings
  /-- The path of the document below the root of the application. -/
  modulePath : Text
  platform : Text
  /-- Whether the first error ends the compilation. -/
  strict : Bool
  useDataBinding : Bool
  formatter : Option Formatter

namespace Options

/-- The options that follow from the settings. -/
def standard (settings : Settings) : Options where
  settings
  modulePath := "component.xml"
  platform := settings.platform
  strict := settings.strictMode
  useDataBinding := settings.useDataBinding
  formatter := none

/-- The path of the document without its extension: the name of its module. -/
def moduleName (options : Options) : Text :=
  Path.dropExtension options.modulePath

/-- The directory of the document. -/
def moduleDir (options : Options) : Text :=
  Path.dirName options.moduleName

/-- Resolves a path written in the document. -/
def resolve (options : Options) (uri : Text) : Text :=
  Path.resolve uri options.moduleDir

/-- Whether a name is that of the platform compiled for. -/
def matchesPlatform (options : Options) (name : Text) : Bool :=
  name.lower = options.platform.lower

end Options

end ViewMarkup
