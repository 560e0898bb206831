import ViewMarkup.Report.Channel
import ViewMarkup.Script.Printer
import ViewMarkup.Tag.Construction

/-!
# Walking over the tags of a document

A document is read as a sequence of events: a tag is opened, its attributes follow, the tag is
complete, and later it is closed.  `Walk.event` takes one event and moves the walk on.

A new tag is checked against the tag that it stands in.  A tag that may not stand there is
reported, and in lenient mode it is left out with all that it holds.  Tags named after a platform
are transparent if the platform is the one compiled for; otherwise everything inside is left out.

Events need not be balanced.  What an event has done before a failure stays done, so a walk can go
on after it.
-/

namespace ViewMarkup

open Script (Node PrintFault)

/-- What makes a compilation end without a report. -/
inductive Defect where
  /-- An escape in a binding names a number that no integer type of the format can hold. -/
  | codePointOverflow
  /-- A tag is completed where it has no parent to write to. -/
  | noParent
  /-- A two-way binding has no target that can be written to. -/
  | unwritableTarget
  /-- The tree of the module cannot be printed. -/
  | unprintable (fault : PrintFault)

/-- What can end a step. -/
inductive Failure where
  | raised (e : Raised)
  | defect (d : Defect)

/-- The tag that receives attributes. -/
inductive Receiver where
  | nobody
  /-- The frame on top. -/
  | top
  /-- A frame that has been closed before it was complete. -/
  | closed (frame : Frame)

namespace Receiver

/-- Who receives attributes after a frame has been taken off the top. -/
def close (frame : Frame) : Receiver → Receiver
  | top => closed frame
  | receiver => receiver

/-- Changes a closed frame that receives attributes. -/
def modifyClosed (f : Frame → Frame) : Receiver → Receiver
  | closed frame => closed (f frame)
  | receiver => receiver

end Receiver

/-- The state of a walk. -/
structure Walk where
  draft : Draft
  receiver : Receiver
  /-- The last index handed out. -/
  treeIndex : Int
  /-- How many tags of other platforms are open. -/
  suppressed : Int
  /-- A slot is open, and the views in it are its fallback. -/
  inSlotFallback : Bool
  /-- The root has closed. -/
  initialized : Bool
  /-- The functions for bindings. -/
  callbacks : List Node
  /-- The statements that register modules. -/
  registrations : List Node
  /-- The entries of the custom modules. -/
  customModules : List Node
  /-- The paths of the modules registered. -/
  registeredPaths : List Text
  /-- The names of the built-in elements, without repetitions. -/
  usedTags : List Text
  /-- The paths as written, for the host to resolve. -/
  paths : List Text
  channel : Channel

namespace Walk

/-- A walk before the first event. -/
def start (channel : Channel) : Walk where
  draft := .empty
  receiver := .nobody
  treeIndex := -1
  suppressed := 0
  inSlotFallback := false
  initialized := false
  callbacks := []
  registrations := []
  customModules := []
  registeredPaths := []
  usedTags := []
  paths := []
  channel

/-- A step of a walk.  A failure keeps what has been done. -/
abbrev Step := EStateM Failure Walk

def modifyDraft (f : Draft → Draft) : Step Unit :=
  modify fun w => { w with draft := f w.draft }

def modifyTop (f : Frame → Frame) : Step Unit :=
  modifyDraft fun d => d.modifyTop f

/-- Adds code to the buffer of the frame on top. -/
def append (nodes : List Node) : Step Unit :=
  modifyDraft fun d => d.append nodes

def log (level : Nat) (text : Text) : Step Unit :=
  modify fun w => { w with channel := w.channel.log level text }

/-- Passes an error to the channel, which may raise it. -/
def report (e : Raised) : Step Unit := do
  let w ← get
  let (verdict, channel) := w.channel.notify e false
  set { w with channel }
  match verdict with
  | .recorded _ => return
  | .raised e => throw (.raised e)

def warn (message : Text) : Step Unit :=
  modify fun w => { w with channel := w.channel.warn message }

def fail {α : Type} (fault : TagFault) : Step α :=
  throw (.raised (.ofCause (.tag fault)))

/-- What catches a failure: an error is reported, and the walk goes on with another step. -/
def recovering (recover : Step Unit) : Failure → Step Unit
  | .raised e => do
    report e
    recover
  | .defect d => throw (.defect d)

/-! ### Opening a tag -/

/-- What a parent has against a new tag. -/
def nestingFault? (inSlotFallback : Bool) (parent : Frame) (name : Text) : Option TagFault :=
  if name = Frame.slotTag && inSlotFallback then some .slotInFallback
  else if name = Frame.slotContentTag && inSlotFallback then some .slotContentInSlot
  else if name = Frame.slotContentTag && !parent.isCustom then some (.slotContentOutsideCustom name)
  else if name = Frame.slotContentTag && parent.holdsSlots then some (.repeatedSlotContent name)
  else if parent.isSingle && parent.nestedCount != 0 then some (.secondChild parent.fullName)
  else
    match parent.kind with
    | .templateArray _ =>
      if name = Frame.templateTag then none else some (.notTemplate parent.fullName)
    | _ =>
      if name = Frame.templateTag then some (.misplacedTemplate (some parent.fullName)) else none

/-- The kind of a tag for a property, by the end of the name of the property. -/
def propertyKind (property : Text) : TagKind :=
  if property.endsWith "Templates" then .templateArray property
  else if property.endsWith "Template" then .template property
  else .property property

/-- The frame of a tag for a property, written `Owner.property`. -/
def propertyFrame (name owner property : Text) (parent : Option Frame) : Except TagFault Frame :=
  match parent with
  | none => .error (.misplacedProperty name none)
  | some parent =>
    if parent.kind ≠ .view then .error (.misplacedProperty name (some parent.fullName))
    else if parent.tagName ≠ owner then .error (.unsuitableProperty name parent.tagName)
    else .ok (.new owner (propertyKind property) parent.index)

/-- The frame of a tag by its name and its parent, which has nothing against it. -/
def frameFor (name : Text) (parent : Option Frame) : Except TagFault Frame :=
  match Text.cut? "." name with
  | some (owner, property) => propertyFrame name owner property parent
  | none =>
    if name = Frame.slotContentTag then
      match parent with
      | none => .error (.noParent name)
      | some parent => .ok (.new name .slotContent parent.index)
    else if name = Frame.templateTag then
      match parent with
      | none => .error (.misplacedTemplate none)
      | some parent => .ok (.new name .keyedTemplate parent.index)
    else .ok (.new name .view (-1))

/-- The frame of a new tag, or why the tag may not stand here. -/
def newFrame (w : Walk) (name : Text) : Except TagFault Frame :=
  let parent := w.draft.frames.head?
  if w.initialized then .error (.secondRoot name)
  else
    match parent.bind fun parent => nestingFault? w.inSlotFallback parent name with
    | some fault => .error fault
    | none => frameFor name parent

/-- Opens a frame that is left out. -/
def pushSkipped (name : Text) : Step Unit := do
  modifyTop fun parent => { parent with hasOpenChild := true }
  modifyDraft fun d => d.push (.skip name)
  modify fun w => { w with receiver := .top }

/-- Starts a tag. -/
def openTag (options : Options) (name : Text) : Step Unit := do
  let w ← get
  if Name.isPlatform name then
    modify fun w => { w with
      suppressed := if options.matchesPlatform name then w.suppressed else w.suppressed + 1
      receiver := .nobody }
  else if w.suppressed ≠ 0 then
    modify fun w => { w with receiver := .nobody }
  else if w.draft.frames.head?.any fun parent => parent.ignored then
    pushSkipped name
  else
    match w.newFrame name with
    | .error fault =>
      report (.ofCause (.tag fault))
      pushSkipped name
    | .ok frame =>
      modifyTop fun parent =>
        { parent with hasOpenChild := true, nestedCount := parent.nestedCount + 1 }
      modifyDraft fun d => d.push frame
      modify fun w => { w with receiver := .top }
      log 3 ("Opening '" ++ name ++ "' (" ++ frame.kind.label ++ ")")

/-! ### Attributes -/

/-- Records an attribute of the tag that receives them. -/
def setAttribute (name value : Text) : Step Unit := do
  let w ← get
  let set' (frame : Frame) := { frame with attributes := frame.attributes.insert name value }
  match w.receiver with
  | .nobody => return
  | .top => modifyTop set'
  | .closed _ => modify fun w => { w with receiver := w.receiver.modifyClosed set' }

/-- A list of texts between brackets, each in quotes. -/
def quotedList (texts : List Text) : Text :=
  "[" ++ Text.join ", " (texts.map fun t => "'" ++ t ++ "'") ++ "]"

/-- Compiles a binding.  One that is refused is reported and yields nothing. -/
def describe (item : Attribute) : Step (Option BindingDescriptor) := do
  match Binding.describe item with
  | .ok descriptor =>
    log 3 ("Binding '" ++ item.name ++ "': properties=" ++ quotedList descriptor.properties ++
      " two_way=" ++ (if descriptor.isTwoWay then Text.ofString "True" else Text.ofString "False"))
    return some descriptor
  | .error (.expression (.escape .outOfRange)) => throw (.defect .codePointOverflow)
  | .error fault =>
    report (.ofCause (.binding fault))
    return none

/-- What an attribute of a tag means; an attempt to set the binding context is warned of. -/
def attributeItem (options : Options) (tagName : Text) (attributes : AttributeMap)
    (name value : Text) : Step (Option Attribute) := do
  match Attribute.classify options tagName attributes name value with
  | .nothing => return none
  | .inheritedContext =>
    warn (Attribute.contextWarning name tagName)
    return none
  | .item item => return some item

/-- The statements for the attributes of a view.  Bindings are kept in its frame. -/
def applyAttributes (options : Options) (frame : Frame) :
    AttributeMap → Step (List Node)
  | [] => return []
  | (name, value) :: rest => do
    match ← attributeItem options frame.tagName frame.attributes name value with
    | none => applyAttributes options frame rest
    | some item =>
      if item.isBinding then
        if let some descriptor ← describe item then
          modifyTop fun f => { f with descriptors := f.descriptors ++ [descriptor] }
        applyAttributes options frame rest
      else
        return Attribute.setter options.settings frame.index item ::
          (← applyAttributes options frame rest)

/-! ### Modules declared by tags -/

/-- The modules that the attributes of a tag declare, as written. -/
def declaredModules (attributes : AttributeMap) : List (Text × Text) :=
  attributes.filterMap fun (name, value) =>
    match Name.split name with
    | (localName, some qualifier) =>
      if qualifier = Attribute.namespaceMark then some (localName, value) else none
    | (_, none) => none

/-- The module under a name: declared by the tag itself, or by the innermost open tag that does. -/
def findModule? (options : Options) (declared : List (Text × Text)) (frames : List Frame)
    (qualifier : Text) : Option Text :=
  match declared.lookup qualifier with
  | some path => some (options.resolve path)
  | none => frames.findSome? fun frame => frame.namespaces.lookup qualifier

/-- Declares a module for a tag and registers it unless that has been done. -/
def declareModule (options : Options) (qualifier written : Text) : Step Unit := do
  let path := options.resolve written
  modifyTop fun f => { f with namespaces := f.namespaces ++ [(qualifier, path)] }
  modify fun w => { w with paths := w.paths ++ [written] }
  let w ← get
  unless w.registeredPaths.contains path do
    modify fun w => { w with
      registeredPaths := w.registeredPaths ++ [path]
      registrations := w.registrations ++ [Construction.registration path written]
      customModules := w.customModules ++ [Construction.customModule path] }
    log 3 ("Registered namespace '" ++ qualifier ++ "' -> " ++ path)

def declareModules (options : Options) : List (Text × Text) → Step Unit
  | [] => return
  | (qualifier, written) :: rest => do
    declareModule options qualifier written
    declareModules options rest

/-! ### Completing a tag -/

/-- Records a view with its parent. -/
def recordChild (view parent : Frame) : Frame :=
  let parent :=
    if view.tagName = Frame.slotTag then
      { parent with slotChildren := parent.slotChildren ++ [view.index] }
    else parent
  match parent.kind with
  | .slotContent | .skipped =>
    let name := (view.attributes.nonEmpty? Attribute.slotAttribute).getD Attribute.defaultSlot
    { parent with slotMap := addSlotView name view.index parent.slotMap }
  | _ => { parent with children := parent.children ++ [view.index] }

/-- Gives the view on top its index. -/
def takeIndex (isFallback : Bool) : Step Int := do
  let w ← get
  let index := if isFallback then w.treeIndex else w.treeIndex + 1
  modify fun w => { w with treeIndex := index }
  modifyTop fun f => { f with index }
  return index

/-- Lets the view on top write into the buffer below, and records it there. -/
def attach (options : Options) (frame : Frame) (hasParent : Bool) : Step Unit := do
  modifyTop fun f => { f with own := none }
  if hasParent then
    modifyDraft fun d => d.modifyBelow fun below => below.modifyTop (recordChild frame)
  else
    modify fun w =>
      { w with paths := w.paths ++ Construction.writtenModules frame.attributes }
    append (Construction.rootDeclarations options frame.attributes)

/-- Sets the splice point of the frame on top to the end of its buffer. -/
def markSplice : Step Unit :=
  modifyDraft fun d => d.modifyTop fun f => { f with splice := d.buffer.length }

/-- Opens a slot: its variable, and the branch that takes given content over. -/
def openSlot (options : Options) (frame : Frame) : Step Unit := do
  let element := options.settings.elementName frame.index
  let name := (frame.attributes.nonEmpty? "name").getD Attribute.defaultSlot
  append [Construction.declareOnly element]
  modifyDraft fun d => d.modifyBuffer (· ++ [.slot element name])
  markSplice
  modifyTop fun f => { f with slotName := some name }
  modify fun w => { w with inSlotFallback := true }

/-- Adds a name to the built-in elements used. -/
def useTag (name : Text) : Step Unit :=
  modify fun w => { w with usedTags := Binding.insertName w.usedTags name }

/-- The module that the view on top comes from; a built-in element comes from none.  Modules are
looked up in the open frames, among them those beside the view that are not its parents. -/
def elementModule (options : Options) (beside : List Frame) (frame : Frame) :
    Step (Option Text) := do
  let w ← get
  match (Name.split frame.tagName).2 with
  | none => return none
  | some qualifier =>
    match findModule? options (declaredModules frame.attributes) (beside ++ w.draft.frames)
        qualifier with
    | some path => return some path
    | none => fail (.unknownNamespace qualifier frame.tagName)

/-- The statements that build the view on top.  A custom element declares the variable for the
contents of its slots first. -/
def startElement (options : Options) (frame : Frame) (path : Option Text) (isFallback : Bool) :
    Step (List Node) := do
  let localName := (Name.split frame.tagName).1
  match path with
  | some path =>
    modifyTop fun f => { f with isCustom := true }
    append [.letStatement (Construction.slotViewsName frame.index) (.object [])]
    markSplice
    return Construction.constructCustom options.settings frame.index localName path isFallback
  | none =>
    useTag localName
    return Construction.construct options.settings frame.index
      (.new (.identifier localName) []) isFallback

/-- Opens an element: what builds it, and what its attributes set. -/
def openElement (options : Options) (frame : Frame) (path : Option Text) (isFallback : Bool) :
    Step Unit := do
  let statements ← startElement options frame path isFallback
  let settings ← applyAttributes options frame frame.attributes
  append (statements ++ settings)
  log 3 ("View '" ++ frame.tagName ++ "' -> " ++ options.settings.elementName frame.index)

/-- Opens the view on top. -/
def openView (options : Options) (beside : List Frame) (frame : Frame) (parent : Option Frame) :
    Step Unit := do
  let path ← elementModule options beside frame
  declareModules options (declaredModules frame.attributes)
  let isFallback := parent.any Frame.isSlot
  let index ← takeIndex isFallback
  let frame := { frame with index }
  attach options frame parent.isSome
  markSplice
  if frame.tagName = Frame.slotTag then openSlot options frame
  else openElement options frame path isFallback

/-- Places a factory for the frame on top in the buffer below.  A frame that has been closed already
brings the body with it. -/
def placeFactory (shape : FactoryShape) (frame : Frame) (isClosed : Bool) : Step Unit := do
  let fragment : Fragment :=
    if isClosed then .code (shape.node (Draft.ownNodes frame)) else .factory shape
  modifyDraft fun d => d.modifyBelow fun below => below.modifyBuffer (· ++ [fragment])
  modifyTop fun f => { f with placed := true }

/-- Emits the code for the start of the tag on top, given its parent. -/
def openUnder (options : Options) (beside : List Frame) (frame : Frame) (isClosed : Bool)
    (parent : Option Frame) : Step Unit :=
  let target (property : Text) :=
    Node.memberNamed (Construction.element options.settings frame.index) property
  match frame.kind, parent with
  | .view, _ => openView options beside frame parent
  | .property _, _ | .skipped, _ => pure ()
  | _, none => throw (.defect .noParent)
  | .template property, some _ => placeFactory (.template (target property)) frame isClosed
  | .templateArray property, some _ =>
    placeFactory (.templateArray (target property)) frame isClosed
  | .keyedTemplate, some parent =>
    match frame.attributes.nonEmpty? "key" with
    | some key => placeFactory (.keyedTemplate key) frame isClosed
    | none => fail (.missingKey frame.tagName parent.fullName)
  | .slotContent, some _ =>
    modifyDraft fun d => d.modifyBelow fun below =>
      below.modifyTop fun p => { p with holdsSlots := true }

/-- Emits the code for the start of the tag on top. -/
def openTop (options : Options) (beside : List Frame) (frame : Frame) (isClosed : Bool) :
    Step Unit := do
  let w ← get
  openUnder options beside frame isClosed w.draft.parent?

/-- Completes the tag on top.  If it has to be refused, it is reported and left out. -/
def completeTop (options : Options) (beside : List Frame) (frame : Frame) (isClosed : Bool) :
    Step Unit :=
  tryCatch (openTop options beside frame isClosed)
    (recovering (modifyTop fun f => { f with ignored := true }))

/-- Changes the walk that a step ends with, whether it fails or not. -/
def afterwards {α : Type} (f : Walk → Walk) :
    EStateM.Result Failure Walk α → EStateM.Result Failure Walk α
  | .ok a w => .ok a (f w)
  | .error e w => .error e (f w)

/-- Does a step with a frame in the place of the one on top, and puts that one back afterwards. -/
def inPlaceOfTop (frame : Frame) (step : (beside : List Frame) → Step Unit) : Step Unit := fun w =>
  let beside := w.draft.frames.take 1
  let restore (w : Walk) : Walk :=
    { w with draft := { w.draft with frames := beside ++ w.draft.frames.tail } }
  afterwards restore
    (step beside { w with draft := { w.draft with frames := frame :: w.draft.frames.tail } })

/-- A frame with all its attributes; if they are given, they replace those received one by one. -/
def withAttributes (attributes : Option AttributeMap) (frame : Frame) : Frame :=
  { frame with attributes := attributes.getD frame.attributes }

/-- Completes the tag that has received attributes. -/
def completeReceiver (options : Options) (attributes : Option AttributeMap) :
    Receiver → Step Unit
  | .nobody => return
  | .top => do
    let w ← get
    match w.draft.frames.head? with
    | none => return
    | some frame =>
      unless frame.ignored do
        modifyTop fun _ => withAttributes attributes frame
        completeTop options [] (withAttributes attributes frame) false
  | .closed frame =>
    unless frame.ignored do
      inPlaceOfTop (withAttributes attributes frame) fun beside =>
        completeTop options beside (withAttributes attributes frame) true

/-- Completes the tag that receives attributes. -/
def completeTag (options : Options) (attributes : Option AttributeMap) : Step Unit := do
  let w ← get
  modify fun w => { w with receiver := .nobody }
  completeReceiver options attributes w.receiver

/-! ### Closing a tag -/

/-- Whether the branch of a slot stands just before its splice point. -/
def hasBranch (settings : Settings) (frame : Frame) (buffer : List Fragment) : Bool :=
  match frame.slotName, (buffer.take frame.splice).getLast? with
  | some name, some (.slot element name') =>
    element = settings.elementName frame.index && name = name'
  | _, _ => false

/-- Closes a slot: what has been written since becomes the other half of its branch. -/
def closeSlot (options : Options) (frame : Frame) : Step Unit := do
  modify fun w => { w with inSlotFallback := false }
  let w ← get
  let buffer := w.draft.buffer
  if frame.splice < buffer.length then
    if hasBranch options.settings frame buffer then
      let element := options.settings.elementName frame.index
      let views := (buffer.drop frame.splice).map (Fragment.node [])
      let branch := Fragment.slotBranch element (frame.slotName.getD [])
        (some (Construction.slotFallback options.settings frame.index views))
      modifyDraft fun d => d.modifyBuffer fun b => b.take (frame.splice - 1) ++ [.code branch]
    else fail .brokenSlot

/-- Adds the functions for the bindings of a view, and subscribes them. -/
def addCallbacks (options : Options) (frame : Frame) : Step Unit := do
  let element := options.settings.elementName frame.index
  match Binding.callbacks? frame.index element frame.descriptors with
  | none => throw (.defect .unwritableTarget)
  | some callbacks =>
    unless frame.descriptors.isEmpty do
      log 3 ("Generated " ++ Text.ofNat callbacks.declarations.length ++
        " binding callbacks for " ++ element)
    modify fun w => { w with callbacks := w.callbacks ++ callbacks.declarations }
    append callbacks.attach

/-- Closes a view: its children and its bindings. -/
def closeView (options : Options) (frame : Frame) : Step Unit := do
  if frame.holdsSlots && frame.nestedCount > 1 then fail (.mixedSlotContent frame.tagName)
  else
    append (Construction.addChildren options.settings frame)
    addCallbacks options frame

/-- Emits the code for the end of the tag on top. -/
def closeTop (options : Options) (frame : Frame) : Step Unit := do
  match frame.kind with
  | .view => if frame.isSlot then closeSlot options frame else closeView options frame
  | .property property =>
    append (Construction.addToProperty options.settings frame property)
    modifyDraft fun d =>
      let collected := d.buffer
      d.modifyBelow fun below => below.modifyBuffer (· ++ collected)
  | .template _ | .keyedTemplate => append [Construction.returnView options.settings frame]
  | .templateArray _ | .skipped => return
  | .slotContent =>
    append (Construction.slotAssignments options.settings frame)
    modifyDraft fun d =>
      let collected := d.buffer
      let splice := (d.parent?.map fun p => p.splice).getD 0
      d.modifyBelow fun below => below.modifyBuffer fun b => Buffer.insertAt b splice collected

/-- Ends the tag on top.  What is wrong with it is reported. -/
def endTop (options : Options) (frame : Frame) : Step Unit :=
  tryCatch (closeTop options frame) (recovering (return))

/-- Takes the frame on top away.  When the root goes, the component is complete. -/
def pop : Step Unit := do
  let w ← get
  match w.draft.pop? with
  | none => return
  | some (frame, draft) =>
    modify fun w => { w with draft, receiver := w.receiver.close frame }
    if draft.frames.isEmpty then
      unless frame.ignored do
        modify fun w => { w with initialized := true }
        log 2 ("Root view closed after " ++ Text.ofInt (w.treeIndex + 1) ++ " views")
    else
      modifyTop fun parent => { parent with hasOpenChild := false }

/-- Finishes a tag. -/
def closeTag (options : Options) (name : Text) : Step Unit := do
  let w ← get
  if Name.isPlatform name then
    unless options.matchesPlatform name do
      modify fun w => { w with suppressed := w.suppressed - 1 }
  else if w.suppressed ≠ 0 then
    return
  else
    match w.draft.frames.head? with
    | none => return
    | some frame =>
      if frame.fullName = name && !frame.hasOpenChild then
        unless frame.ignored do
          endTop options frame
        pop
      else modifyTop fun f => { f with hasOpenChild := false }

/-- Ends the document, which must have had a root. -/
def finish : Step Unit := do
  let w ← get
  unless w.initialized do
    report (.ofCause (.tag .noRoot))

end Walk

/-- What is read in a document. -/
inductive TagEvent where
  | openTag (name : Text)
  | setAttribute (name value : Text)
  /-- The tag is complete; all its attributes may be given at once. -/
  | completeTag (attributes : Option AttributeMap)
  | closeTag (name : Text)
  | finish

/-- Takes an event. -/
def Walk.event (options : Options) : TagEvent → Walk.Step Unit
  | .openTag name => openTag options name
  | .setAttribute name value => setAttribute name value
  | .completeTag attributes => completeTag options attributes
  | .closeTag name => closeTag options name
  | .finish => finish

end ViewMarkup
