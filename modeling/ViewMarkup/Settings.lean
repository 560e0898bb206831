import ViewMarkup.Text.Basic

/-!
# Settings

What holds for every document that is compiled: the defaults of the options, and the names that
generated modules use.
-/

namespace ViewMarkup

/-- The settings of the compiler. -/
structure Settings where
  /-- The platform that documents are compiled for. -/
  platform : Text
  /-- Whether the first error ends a compilation. -/
  strictMode : Bool
  /-- Whether values between `{{` and `}}` are bindings. -/
  useDataBinding : Bool
  debugMode : Bool
  /-- What the variables of elements start with, before the index. -/
  elementStem : Text
  /-- The module of the support library. -/
  runtimeModule : Text
  /-- The module of the built-in elements. -/
  uiModule : Text
  /-- The properties whose children are assigned as an array. -/
  knownCollections : List Text
  deriving DecidableEq

namespace Settings

/-- The settings where nothing else is said. -/
def standard : Settings where
  platform := "android"
  strictMode := true
  useDataBinding := true
  debugMode := false
  elementStem := "el"
  runtimeModule := "@nativescript-community/xml-ui-loader/runtime"
  uiModule := "@nativescript/core/ui"
  knownCollections := ["items", "spans", "actionItems"]

/-- The variable of the element at an index. -/
def elementName (settings : Settings) (index : Int) : Text :=
  settings.elementStem ++ Text.ofInt index

end Settings

end ViewMarkup
