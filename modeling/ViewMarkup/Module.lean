import ViewMarkup.Tag.Walk

/-!
# Modules

The module that a document is compiled to: what it requires, the modules it registers, the
functions for its bindings, and a class whose constructor builds the views.
-/

namespace ViewMarkup

open Script (Node PrintFault)

/-- A finished module. -/
structure Module where
  /-- The name of the class; empty if there is none. -/
  component : Text
  program : Node
  code : Text
  /-- The names of the built-in elements, in order. -/
  usedTags : List Text
  registrations : List Node
  callbacks : List Node
  /-- The paths as written in the document, for the host to resolve. -/
  paths : List Text

namespace Module

/-- The statements that require the support library and the built-in elements. -/
def imports (settings : Settings) (usedTags : List Text) : List Node :=
  .letStatement Binding.runtimeName (.require settings.runtimeModule) ::
    if usedTags.isEmpty then []
    else
      let properties := usedTags.map fun tag =>
        Node.property (.identifier tag) (.identifier tag) false true
      [.declaration "let"
        [.declarator (.objectPattern properties) (some (.require settings.uiModule))]]

/-- The constructor of the class, around the code that builds the views. -/
def constructor (settings : Settings) (customModules body : List Node) : Node :=
  let root := Construction.element settings 0
  let style : Node := .identifier "resolvedCssModuleName"
  .method (.identifier "constructor")
    [.assignmentPattern (.identifier "moduleExportsFallback") .null]
    (.block ([.letStatement "customModules" (.object customModules)] ++ body ++
      [.expressionStatement
        (.logical .and style (.callOf (.memberNamed root "addCssFile") [style])),
       .returnStatement (some root)]))

/-- The tree of the module of a walk. -/
def programOf (options : Options) (component : Text) (w : Walk) : Node :=
  .program (imports options.settings (Text.sorted w.usedTags) ++ w.registrations ++ w.callbacks ++
    [.exportDefault (.classDeclaration (.identifier component)
        [constructor options.settings w.customModules w.draft.nodes]),
     .assign (.memberNamed (.identifier component) "isXMLComponent") (.boolean true)])

/-- The line of the trace about a module. -/
def summary (component : Text) (w : Walk) : Text :=
  "Assembled " ++ component ++ ": " ++ Text.ofNat w.usedTags.length ++ " tags, " ++
    Text.ofNat w.registrations.length ++ " namespaces, " ++ Text.ofNat w.callbacks.length ++
    " callbacks"

/-- Assembles the module of a walk as it stands. -/
def assemble (options : Options) : Walk.Step Module := do
  let component := Name.component options.modulePath
  let w ← get
  Walk.log 2 (summary component w)
  let program := programOf options component w
  match Script.print program with
  | .error fault => throw (.defect (.unprintable fault))
  | .ok code => return {
      component
      program
      code
      usedTags := Text.sorted w.usedTags
      registrations := w.registrations
      callbacks := w.callbacks
      paths := w.paths }

/-- The tree of a module that exports a text as it is. -/
def rawProgram (content : Text) : Node :=
  let name : Text := "RAW_XML_CONTENT"
  .program [.declare "const" name (.string content), .exportDefault (.identifier name)]

/-- The module that exports a text as it is. -/
def ofRawText (content : Text) : Except PrintFault Module := do
  let program := rawProgram content
  let code ← Script.print program
  return ⟨[], program, code, [], [], [], []⟩

end Module

end ViewMarkup
