import ViewMarkup.Tag.Attribute
import ViewMarkup.Tag.Frame

/-!
# Code for views

The statements that build a view, hand it its children and declare the modules it needs.
-/

namespace ViewMarkup.Construction

open Script (Node)
open Binding (runtimeCall statement)

/-- The variable of an element. -/
def element (settings : Settings) (index : Int) : Node :=
  .identifier (settings.elementName index)

/-- The name of the variable with the slot contents of an element. -/
def slotViewsName (index : Int) : Text :=
  "slotViews" ++ Text.ofInt index

/-- The statement `let name;`. -/
def declareOnly (name : Text) : Node :=
  .declaration "let" [.declarator (.identifier name) none]

/-- The paths that the root writes for its code and its style. -/
def writtenModules (attributes : AttributeMap) : List Text :=
  [Attribute.codeFile, Attribute.cssFile].filterMap attributes.get?

/-- The module that the root names, or the module of the document itself. -/
def moduleFor (options : Options) (attributes : AttributeMap) (name : Text) : Text :=
  match attributes.get? name with
  | some path => options.resolve path
  | none => options.moduleName

/-- The statements before the root view: the code and the style of the document, and what its code
exports. -/
def rootDeclarations (options : Options) (attributes : AttributeMap) : List Node :=
  let codeModule : Text := "resolvedCodeModuleName"
  let resolveName (name extension : Text) :=
    runtimeCall "resolveModuleName"
      [.string (moduleFor options attributes name), .string extension]
  [.letStatement codeModule (resolveName Attribute.codeFile ""),
   .letStatement "resolvedCssModuleName" (resolveName Attribute.cssFile "css"),
   .letStatement "moduleExports" (.conditional (.identifier codeModule)
     (runtimeCall "loadModule" [.identifier codeModule, .boolean true])
     (.identifier "moduleExportsFallback"))]

/-- The statements that build an element.  The fallback of a slot is assigned to the variable of
the slot and collected. -/
def construct (settings : Settings) (index : Int) (value : Node) (isFallback : Bool) : List Node :=
  if isFallback then
    [.assign (element settings index) value,
     statement (.callOf (.memberNamed (.identifier "fallbackViews") "push")
       [element settings index])]
  else [.letStatement (settings.elementName index) value]

/-- The statements that build a custom element.  While its constructor runs, the contents for its
slots are found on its prototype. -/
def constructCustom (settings : Settings) (index : Int) (className modulePath : Text)
    (isFallback : Bool) : List Node :=
  let reference :=
    Node.memberNamed (.memberNamed (.identifier "customModules") modulePath) className
  let slotViews := Node.memberNamed (.memberNamed reference "prototype") "$slotViews"
  let value := Node.conditional (.memberNamed reference "isXMLComponent")
    (.new reference [.identifier "moduleExports"]) (.new reference [])
  [.assign slotViews (.identifier (slotViewsName index))] ++
    construct settings index value isFallback ++
    [statement (.unary .delete slotViews)]

/-- The children at some indices.  A slot is an array and has to be spread. -/
def childNodes (settings : Settings) (frame : Frame) (indices : List Int) : List Node :=
  indices.map fun index =>
    if frame.slotChildren.contains index then
      .spread (.logical .or (element settings index) (.array []))
    else element settings index

/-- The statement that hands a view its children. -/
def addChildren (settings : Settings) (frame : Frame) : List Node :=
  match childNodes settings frame frame.children with
  | [] => []
  | children =>
    [statement (runtimeCall "addViewsFromBuilder"
      [element settings frame.index, .array children])]

/-- The statement that hands a property of a view its children. -/
def addToProperty (settings : Settings) (frame : Frame) (property : Text) : List Node :=
  match childNodes settings frame frame.children with
  | [] => []
  | children =>
    let flag : List Node :=
      if settings.knownCollections.contains property then [.boolean true] else []
    [statement (runtimeCall "addViewsFromBuilder"
      ([element settings frame.index, .array children, .string property] ++ flag))]

/-- The statements that hand a custom element the contents for its slots. -/
def slotAssignments (settings : Settings) (frame : Frame) : List Node :=
  frame.slotMap.map fun (name, indices) =>
    .assign (.memberNamed (.identifier (slotViewsName frame.index)) name)
      (.array (childNodes settings frame indices))

/-- What a template returns: its last view, or nothing. -/
def returnView (settings : Settings) (frame : Frame) : Node :=
  .returnStatement (some
    (match frame.children.getLast? with
      | some index => element settings index
      | none => .null))

/-- What is done if no content was given for a slot. -/
def slotFallback (settings : Settings) (index : Int) (views : List Node) : Node :=
  .block ([.letStatement "fallbackViews" (.array [])] ++ views ++
    [.assign (element settings index) (.identifier "fallbackViews")])

/-- The statement that registers a declared module. -/
def registration (path written : Text) : Node :=
  statement (runtimeCall "registerModule" [.string path, .arrow [] (.require written)])

/-- The entry of a declared module among the custom modules. -/
def customModule (path : Text) : Node :=
  let extension : Text := if Text.endsWith path ".xml" then Text.ofString "xml" else []
  .property (.string path) (runtimeCall "loadCustomModule" [.string path, .string extension])
    false false

end ViewMarkup.Construction
