import ViewMarkup.Proofs.Walk.Element

/-!
# The code of an element

The code that builds a document, defined by recursion on its elements, without events, open tags or
buffers.  What an element comes to depends on where it stands: on the modules declared around it, on
the view that it belongs to, on whether it stands directly in a slot, and on the last index that has
been handed out.

* `Element.code` is the code of one element and `Element.codeOf` that of a row of elements.
* `Element.constructorBody` is the code of a whole document.
-/

namespace ViewMarkup

open Script (Node)
open Binding (runtimeCall statement)
open Construction (element)

/-- A view directly inside a tag. -/
structure ChildView where
  index : Int
  isSlot : Bool
  /-- The slot that the view is for, if it stands in slot content. -/
  slot : Text

namespace ChildView

/-- The view in an array of views.  A slot is an array itself and has to be spread. -/
def node (settings : Settings) (view : ChildView) : Node :=
  if view.isSlot then .spread (.logical .or (element settings view.index) (.array []))
  else element settings view.index

/-- The array of some views. -/
def array (settings : Settings) (views : List ChildView) : Node :=
  .array (views.map (node settings))

/-- The statement that hands a view its children, if it has any. -/
def addAll (settings : Settings) (index : Int) (views : List ChildView) : List Node :=
  if views.isEmpty then []
  else [statement (runtimeCall "addViewsFromBuilder"
    [element settings index, array settings views])]

/-- The statement that hands a property of a view its children, if it has any. -/
def addAllTo (settings : Settings) (index : Int) (property : Text) (views : List ChildView) :
    List Node :=
  if views.isEmpty then []
  else
    let flag : List Node :=
      if settings.knownCollections.contains property then [.boolean true] else []
    [statement (runtimeCall "addViewsFromBuilder"
      ([element settings index, array settings views, .string property] ++ flag))]

/-- The names of the slots that views are for, in the order in which they first occur. -/
def slotNames (views : List ChildView) : List Text :=
  (views.map (·.slot)).eraseDups

/-- The statements that hand a custom element the views for its slots. -/
def assignSlots (settings : Settings) (index : Int) (views : List ChildView) : List Node :=
  (slotNames views).map fun name =>
    .assign (.memberNamed (.identifier (Construction.slotViewsName index)) name)
      (array settings (views.filter fun view => view.slot = name))

/-- What a template returns: its last view, or nothing. -/
def returnLast (settings : Settings) (views : List ChildView) : Node :=
  .returnStatement (some
    (match views.getLast? with
      | some view => element settings view.index
      | none => .null))

end ChildView

/-- What an element, or a row of elements, comes to. -/
structure Code where
  /-- Code for the contents of the slots of the custom element around. -/
  given : List Node
  nodes : List Node
  /-- The views that the tag around holds directly. -/
  views : List ChildView
  /-- The last index handed out. -/
  last : Int

namespace Code

/-- No code. -/
def none (last : Int) : Code :=
  ⟨[], [], [], last⟩

/-- The code of one element followed by that of others. -/
def followedBy (first others : Code) : Code :=
  ⟨first.given ++ others.given, first.nodes ++ others.nodes, first.views ++ others.views,
    others.last⟩

end Code

namespace Element

/-- The kind of a tag by its name. -/
def kindOf (name : Text) : TagKind :=
  match Text.cut? "." name with
  | some (_, property) => Walk.propertyKind property
  | none =>
    if name = Frame.slotContentTag then .slotContent
    else if name = Frame.templateTag then .keyedTemplate
    else .view

variable (options : Options)

/-- The modules that a tag declares, under their resolved paths. -/
def modulesOf (attributes : AttributeMap) : List (Text × Text) :=
  (Walk.declaredModules attributes).map fun (qualifier, written) =>
    (qualifier, options.resolve written)

section

variable (name : Text) (attributes : AttributeMap)

/-- What an attribute of a tag means, if it yields code. -/
def item? (pair : Text × Text) : Option Attribute :=
  match Attribute.classify options name attributes pair.1 pair.2 with
  | .item item => some item
  | .nothing | .inheritedContext => none

/-- The attributes of a tag that yield code. -/
def items : List Attribute :=
  attributes.filterMap (item? options name attributes)

/-- The statements for the attributes that are no bindings. -/
def setters (index : Int) : List Node :=
  ((items options name attributes).filter fun item => !item.isBinding).map
    (Attribute.setter options.settings index)

/-- The bindings of a tag. -/
def bindings : List BindingDescriptor :=
  ((items options name attributes).filter (·.isBinding)).filterMap fun item =>
    (Binding.describe item).toOption

/-- The statements that subscribe the bindings of a tag. -/
def attachments (index : Int) : List Node :=
  match Binding.callbacks? index (options.settings.elementName index)
      (bindings options name attributes) with
  | some callbacks => callbacks.attach
  | none => []

end

/-- The module that an element comes from, given the modules declared around it; a built-in element
comes from none. -/
def modulePath? (scope : List (Text × Text)) (name : Text) : Option Text :=
  (Name.split name).2.bind (List.lookup · scope)

/-- The variable for the contents of the slots of a custom element. -/
def slotVariable (path : Option Text) (index : Int) : List Node :=
  if path.isSome then [.letStatement (Construction.slotViewsName index) (.object [])] else []

/-- The code that creates an element and sets its attributes. -/
def creation (path : Option Text) (name : Text) (attributes : AttributeMap)
    (index : Int) (inSlot : Bool) : List Node :=
  let localName := (Name.split name).1
  (match path with
    | some path =>
      Construction.constructCustom options.settings index localName path inSlot
    | none =>
      Construction.construct options.settings index (.new (.identifier localName) []) inSlot) ++
    setters options name attributes index

/-- The code for the start of an element.  A custom element is created after the contents of its
slots; no other element has any. -/
def construction (path : Option Text) (name : Text)
    (attributes : AttributeMap) (index : Int) (inSlot : Bool) (given : List Node) : List Node :=
  slotVariable path index ++ (if path.isSome then given else []) ++
    creation options path name attributes index inSlot

/-- The name of a slot. -/
def slotName (attributes : AttributeMap) : Text :=
  (attributes.nonEmpty? "name").getD Attribute.defaultSlot

/-- The code of a slot, given the code of its fallback. -/
def slotNodes (settings : Settings) (attributes : AttributeMap) (index : Int)
    (fallback : List Node) : List Node :=
  let element := settings.elementName index
  [Construction.declareOnly element,
    Fragment.slotBranch element (slotName attributes)
      (if fallback.isEmpty then none
        else some (Construction.slotFallback settings index fallback))]

/-- The slot that a view in slot content is for. -/
def slotFor (attributes : AttributeMap) : Text :=
  (attributes.nonEmpty? Attribute.slotAttribute).getD Attribute.defaultSlot

mutual

/-- The code of an element. -/
def code (scope : List (Text × Text)) (owner : Int) (inSlot : Bool)
    (last : Int) : Element → Code
  | mk name attributes children =>
    let settings := options.settings
    let target (property : Text) := Node.memberNamed (element settings owner) property
    match kindOf name with
    | .view =>
      let index := if inSlot then last else last + 1
      let inside := codeOf (modulesOf options attributes ++ scope) index
        (name = Frame.slotTag) index children
      let nodes :=
        if name = Frame.slotTag then slotNodes settings attributes index inside.nodes
        else
          construction options (modulePath? (modulesOf options attributes ++ scope) name) name
              attributes index inSlot inside.given ++
            inside.nodes ++ ChildView.addAll settings index inside.views ++
            attachments options name attributes index
      ⟨[], nodes, [⟨index, name = Frame.slotTag, slotFor attributes⟩], inside.last⟩
    | .property property =>
      let inside := codeOf scope owner false last children
      ⟨[], inside.nodes ++ ChildView.addAllTo settings owner property inside.views, [], inside.last⟩
    | .template property =>
      let inside := codeOf scope owner false last children
      let body := inside.nodes ++ [ChildView.returnLast settings inside.views]
      ⟨[], [(FactoryShape.template (target property)).node body], [], inside.last⟩
    | .templateArray property =>
      let inside := codeOf scope owner false last children
      ⟨[], [(FactoryShape.templateArray (target property)).node inside.nodes], [], inside.last⟩
    | .keyedTemplate =>
      let inside := codeOf scope owner false last children
      let body := inside.nodes ++ [ChildView.returnLast settings inside.views]
      let key := (attributes.nonEmpty? "key").getD []
      ⟨[], [(FactoryShape.keyedTemplate key).node body], [], inside.last⟩
    | .slotContent =>
      let inside := codeOf scope owner false last children
      ⟨inside.nodes ++ ChildView.assignSlots settings owner inside.views, [], [], inside.last⟩
    | .skipped => .none last

/-- The code of elements one after the other. -/
def codeOf (scope : List (Text × Text)) (owner : Int) (inSlot : Bool)
    (last : Int) : List Element → Code
  | [] => .none last
  | first :: rest =>
    let code := first.code scope owner inSlot last
    code.followedBy (codeOf scope owner inSlot code.last rest)

end

/-- The code of a document: its script and its style, and the code of its root. -/
def constructorBody : Element → List Node
  | root@(mk _ attributes _) =>
    Construction.rootDeclarations options attributes ++ (root.code options [] (-1) false (-1)).nodes

end Element

end ViewMarkup
