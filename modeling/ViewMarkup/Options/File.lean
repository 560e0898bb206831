import ViewMarkup.Options
import ViewMarkup.Yaml.Reader

/-!
# Options files

Options can be given in a file with a YAML mapping.  Its values are kept as they are typed there;
only the platform is always a text.
-/

namespace ViewMarkup

/-- Why options cannot be taken from a file. -/
inductive OptionsFault where
  /-- The file cannot be read, or is not YAML. -/
  | unreadable (path : Text)
  | notMapping (path : Text)
  | unknown (path : Text) (names : List Text)
  /-- A name is not a text. -/
  | nameType
  /-- A value in the file is written as something that it cannot be. -/
  | value (fault : YamlFault)
  deriving DecidableEq

namespace OptionsFault

def message : OptionsFault → Text
  | unreadable path => "Cannot load options file " ++ path
  | notMapping path => "Options file " ++ path ++ " must contain a mapping"
  | unknown path names =>
    "Unknown option(s) in " ++ path ++ ": " ++ Text.join ", " (Text.sorted names)
  | nameType => "Option names must be texts"
  | value _ => "A value of the options file cannot be read"

end OptionsFault

/-- The options that can be given from outside. -/
inductive OptionField where
  | modulePath
  | platform
  | strict
  | useDataBinding
  | appRoot
  deriving DecidableEq

namespace OptionField

/-- The option under a name of the file. -/
def ofKey? (name : Text) : Option OptionField :=
  if name = Text.ofString "platform" then some .platform
  else if name = Text.ofString "strictMode" then some .strict
  else if name = Text.ofString "useDataBinding" then some .useDataBinding
  else if name = Text.ofString "appPath" then some .appRoot
  else none

end OptionField

/-- The values of options, as they are typed where they come from. -/
structure OptionValues where
  modulePath : Yaml
  platform : Yaml
  strict : Yaml
  useDataBinding : Yaml
  appRoot : Yaml

namespace OptionValues

/-- The values that follow from the settings. -/
def standard (settings : Settings) : OptionValues where
  modulePath := .text (Options.standard settings).modulePath
  platform := .text settings.platform
  strict := .boolean settings.strictMode
  useDataBinding := .boolean settings.useDataBinding
  appRoot := .null

/-- Sets one value. -/
def set (values : OptionValues) (field : OptionField) (value : Yaml) : OptionValues :=
  match field with
  | .modulePath => { values with modulePath := value }
  | .platform => { values with platform := value }
  | .strict => { values with strict := value }
  | .useDataBinding => { values with useDataBinding := value }
  | .appRoot => { values with appRoot := value }

/-- A value as the file gives it; a platform is a text in lower case. -/
def ofFile (field : OptionField) (value : Yaml) : Yaml :=
  match field with
  | .platform => .text value.display.lower
  | _ => value

/-- The names of a mapping, which must be texts. -/
def names (entries : List (Yaml × Yaml)) : Except OptionsFault (List Text) :=
  entries.mapM fun (key, _) =>
    match key with
    | .text name => .ok name
    | _ => .error .nameType

/-- Takes over the entries of a mapping.  Names that are not options are refused. -/
def ofEntries (path : Text) (entries : List (Yaml × Yaml)) (values : OptionValues) :
    Except OptionsFault OptionValues := do
  let unknown := (← names entries).filter fun name => (OptionField.ofKey? name).isNone
  if !unknown.isEmpty then throw (.unknown path unknown)
  return entries.foldl (fun values (key, value) =>
    match key with
    | .text name =>
      match OptionField.ofKey? name with
      | some field => values.set field (ofFile field value)
      | none => values
    | _ => values) values

/-- Reads the options in the text of a file; without a text, the file is missing.  A file without
content leaves everything as it is. -/
def load (settings : Settings) (path : Text) (source : Option Text) :
    Except OptionsFault OptionValues :=
  match source.map fun text => Yaml.read text.unifyLineEnds with
  | none | some (.error .malformed) => .error (.unreadable path)
  | some (.error fault) => .error (.value fault)
  | some (.ok (.map entries)) => ofEntries path entries (standard settings)
  | some (.ok value) =>
    if value.isTruthy then .error (.notMapping path) else .ok (standard settings)

/-- The options for the document at a path. -/
def options (values : OptionValues) (settings : Settings) (modulePath : Text) : Options where
  settings
  modulePath
  platform := values.platform.display
  strict := values.strict.isTruthy
  useDataBinding := values.useDataBinding.isTruthy
  formatter := none

end OptionValues

end ViewMarkup
