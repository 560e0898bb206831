import ViewMarkup.Settings
import ViewMarkup.Settings.VariableFile
import ViewMarkup.Text.LowerCase
import ViewMarkup.Yaml.Json

/-!
# Settings from the environment

Every setting can be given by a variable of the environment, or by one in a file; the environment
wins.  The case of the names does not matter.  A file may hold no other variables.
-/

namespace ViewMarkup

/-- Why the settings cannot be taken from the environment. -/
inductive SettingsFault where
  /-- A list is not written as JSON. -/
  | notJson
  /-- Some variables have values that do not fit, or are not known. -/
  | invalid (places : List Text)
  deriving DecidableEq

namespace Settings

/-- What the variables of settings start with. -/
def variableMark : Text := "xmlui_"

/-- The settings by name. -/
inductive Field where
  | platform
  | strictMode
  | useDataBinding
  | debugMode
  | elementStem
  | runtimeModule
  | uiModule
  | knownCollections
  deriving DecidableEq

namespace Field

def all : List Field :=
  [platform, strictMode, useDataBinding, debugMode, elementStem, runtimeModule, uiModule,
   knownCollections]

def name : Field → Text
  | platform => "platform"
  | strictMode => "strict_mode"
  | useDataBinding => "use_data_binding"
  | debugMode => "debug_mode"
  | elementStem => "element_prefix"
  | runtimeModule => "runtime_module"
  | uiModule => "ui_module"
  | knownCollections => "known_collections"

/-- The variable of a setting, in lower case. -/
def variableName (field : Field) : Text :=
  variableMark ++ field.name

end Field

/-- The truth value that a word stands for, in any case. -/
def truth? (word : Text) : Option Bool :=
  let word := word.map fun c => match c with
    | .char c => CodePoint.char c.toLower
    | c => c
  if Yaml.isOneOf word ["1", "on", "t", "true", "y", "yes"] then some true
  else if Yaml.isOneOf word ["0", "off", "f", "false", "n", "no"] then some false
  else none

/-- The texts of a list, or the places where something else stands. -/
def collections (value : Yaml) : Except (List Text) (List Text) :=
  let name := Field.knownCollections.name
  match value with
  | .list items =>
    let wrong := items.zipIdx.filterMap fun (item, i) =>
      match item with
      | .text _ => none
      | _ => some (name ++ "." ++ Text.ofNat i)
    if wrong.isEmpty then
      .ok (items.filterMap fun item => match item with
        | .text t => some t
        | _ => none)
    else .error wrong
  | _ => .error [name]

/-- Takes a setting from the text of its variable, or says where it does not fit. -/
def set (settings : Settings) (field : Field) (value : Text) : Except (List Text) Settings :=
  let truth (f : Bool → Settings) : Except (List Text) Settings :=
    match truth? value with
    | some b => .ok (f b)
    | none => .error [field.name]
  match field with
  | .platform => .ok { settings with platform := value }
  | .strictMode => truth fun b => { settings with strictMode := b }
  | .useDataBinding => truth fun b => { settings with useDataBinding := b }
  | .debugMode => truth fun b => { settings with debugMode := b }
  | .elementStem => .ok { settings with elementStem := value }
  | .runtimeModule => .ok { settings with runtimeModule := value }
  | .uiModule => .ok { settings with uiModule := value }
  | .knownCollections =>
    match Json.read? value with
    | some .null | none => .ok settings
    | some value => (collections value).map fun names => { settings with knownCollections := names }

/-- The last value of a variable, whose name is in lower case. -/
def variableValue? (assigned : List (Text × Option Text)) (name : Text) : Option Text :=
  ((assigned.filter fun (key, _) => key.lower = name).getLast?).bind fun (_, value) => value

/-- Whether the variable of the list of collections is there and not JSON. -/
def hasBadJson (assigned : List (Text × Option Text)) : Bool :=
  (variableValue? assigned Field.knownCollections.variableName).any fun value =>
    (Json.read? value).isNone

/-- Whether the value of the variable of the list of collections says nothing. -/
def isSilent (field : Field) (value : Text) : Bool :=
  field = .knownCollections &&
    match Json.read? value with
    | some .null => true
    | _ => false

/-- The names in a file that belong to no setting.  Variables without a value do not count, nor do
names of settings without their mark. -/
def strangers (file : List (Text × Option Text)) : List Text :=
  let names := (file.map fun (name, _) => name.lower).eraseDups
  names.filter fun name =>
    (variableValue? file name).any (fun value => !value.isEmpty) &&
    !Field.all.any fun field => name = field.variableName || name = field.name

/-- The settings given by the environment and a file.  Everything that does not fit is found. -/
def read (environment : List (Text × Text)) (file : Option Text) : Except SettingsFault Settings :=
  let outer := environment.map fun (name, value) => (name, some value)
  let inner := (file.map (VariableFile.read environment)).getD []
  if hasBadJson outer || hasBadJson inner then .error .notJson
  else
    let value? (field : Field) : Option Text :=
      ((variableValue? outer field.variableName).filter fun value => !isSilent field value).or
        (variableValue? inner field.variableName)
    let (settings, wrong) := Field.all.foldl (fun (settings, wrong) field =>
      match value? field with
      | none => (settings, wrong)
      | some value =>
        match settings.set field value with
        | .ok settings => (settings, wrong)
        | .error places => (settings, wrong ++ places)) (standard, strangers inner)
    if wrong.isEmpty then .ok settings else .error (.invalid (Text.sorted wrong))

end Settings

end ViewMarkup
