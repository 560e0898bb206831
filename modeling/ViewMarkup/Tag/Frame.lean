import ViewMarkup.Binding.Descriptor
import ViewMarkup.Options
import ViewMarkup.Tag.Buffer

/-!
# Open tags

For every open tag there is a frame with what has to be known until it closes.  A frame collects
code in a buffer of its own, or it writes into the buffer of the frame below it; below the last
frame lies the body of the constructor.  A draft is the open frames together with that body.

* `Draft.buffer` is the buffer that the frame on top writes into, and `Draft.modifyBuffer` changes
  it.
* `Draft.pop?` takes the frame on top away.  If a factory was placed for it, its buffer becomes the
  body of the factory.
* `Draft.nodes` is the code of the body as it stands.
-/

namespace ViewMarkup

open Script (Node)

/-- What a tag stands for. -/
inductive TagKind where
  /-- An element; a slot is one too. -/
  | view
  /-- A property that collects views. -/
  | property (name : Text)
  /-- A property that holds a function building one view. -/
  | template (name : Text)
  /-- A property that holds an array of keyed templates. -/
  | templateArray (name : Text)
  /-- One template of such an array. -/
  | keyedTemplate
  /-- The views that are handed to a custom element. -/
  | slotContent
  /-- A tag that is left out with all that it holds. -/
  | skipped
  deriving DecidableEq

namespace TagKind

/-- The property that a tag is for. -/
def propertyName? : TagKind → Option Text
  | property name | template name | templateArray name => some name
  | _ => none

/-- The name of a kind in the trace. -/
def label : TagKind → Text
  | view => "VIEW"
  | property _ => "COMMON_PROPERTY"
  | template _ => "TEMPLATE"
  | templateArray _ => "TEMPLATE_ARRAY"
  | keyedTemplate => "KEYED_TEMPLATE"
  | slotContent | skipped => "SLOT_CONTENT"

end TagKind

/-- An open tag. -/
structure Frame where
  /-- The name of the tag; for a property, what stands before the dot. -/
  tagName : Text
  kind : TagKind
  /-- The index of the view that the tag belongs to, or minus one. -/
  index : Int
  attributes : AttributeMap
  /-- How many tags have been accepted inside. -/
  nestedCount : Nat
  /-- The indices of the views directly inside. -/
  children : List Int
  /-- Those of them that are slots; the value of a slot is an array. -/
  slotChildren : List Int
  /-- For slot content: the indices of the views by the name of the slot they are for. -/
  slotMap : List (Text × List Int)
  /-- The buffer of the frame, if it has one of its own. -/
  own : Option (List Fragment)
  /-- Where slot content is put in, or where the fallback of a slot starts. -/
  splice : Nat
  /-- The modules that the tag declares under names of its own. -/
  namespaces : List (Text × Text)
  descriptors : List BindingDescriptor
  /-- For an opened slot: its name. -/
  slotName : Option Text
  /-- The element comes from a declared module. -/
  isCustom : Bool
  /-- Slot content has been opened inside. -/
  holdsSlots : Bool
  /-- The tag is left out with all that it holds. -/
  ignored : Bool
  /-- A tag directly inside is open. -/
  hasOpenChild : Bool
  /-- A factory for the tag stands in the buffer below. -/
  placed : Bool

namespace Frame

/-- The tag that fills a place in a component. -/
def slotTag : Text := "slot"

/-- The tag that hands views to a custom element. -/
def slotContentTag : Text := "slotContent"

/-- The tag of a template in an array. -/
def templateTag : Text := "template"

/-- A frame for a tag that has just been opened. -/
def new (tagName : Text) (kind : TagKind) (index : Int) : Frame where
  tagName
  kind
  index
  attributes := []
  nestedCount := 0
  children := []
  slotChildren := []
  slotMap := []
  own := some []
  splice := 0
  namespaces := []
  descriptors := []
  slotName := none
  isCustom := false
  holdsSlots := false
  ignored := false
  hasOpenChild := false
  placed := false

/-- A frame for a tag that is left out. -/
def skip (name : Text) : Frame :=
  { new name .skipped (-1) with ignored := true }

/-- The name of the tag as written. -/
def fullName (frame : Frame) : Text :=
  match frame.kind.propertyName? with
  | some property => frame.tagName ++ "." ++ property
  | none => frame.tagName

/-- Whether a tag is a slot. -/
def isSlot (frame : Frame) : Bool :=
  frame.kind = .view && frame.tagName = slotTag

/-- Whether a tag takes at most one tag inside. -/
def isSingle (frame : Frame) : Bool :=
  match frame.kind with
  | .template _ | .keyedTemplate => true
  | _ => frame.isSlot

end Frame

/-- Adds an index under a name; a new name comes last. -/
def addSlotView (name : Text) (index : Int) : List (Text × List Int) → List (Text × List Int)
  | [] => [(name, [index])]
  | item :: rest =>
    if item.1 = name then (name, item.2 ++ [index]) :: rest
    else item :: addSlotView name index rest

/-- The open tags, the innermost first, over the body of the constructor. -/
structure Draft where
  frames : List Frame
  body : List Fragment

namespace Draft

/-- The draft before the first tag. -/
def empty : Draft :=
  ⟨[], []⟩

/-- The buffer that the topmost of some frames writes into. -/
def bufferOf (body : List Fragment) : List Frame → List Fragment
  | [] => body
  | frame :: below => frame.own.getD (bufferOf body below)

/-- Changes the buffer that the topmost of some frames writes into. -/
def modifyBufferOf (f : List Fragment → List Fragment) (body : List Fragment) :
    List Frame → Draft
  | [] => ⟨[], f body⟩
  | frame :: below =>
    match frame.own with
    | some own => ⟨{ frame with own := some (f own) } :: below, body⟩
    | none =>
      let draft := modifyBufferOf f body below
      ⟨frame :: draft.frames, draft.body⟩

/-- The buffer of the frame on top. -/
def buffer (draft : Draft) : List Fragment :=
  bufferOf draft.body draft.frames

/-- Changes the buffer of the frame on top. -/
def modifyBuffer (draft : Draft) (f : List Fragment → List Fragment) : Draft :=
  modifyBufferOf f draft.body draft.frames

/-- Adds code at the end of the buffer of the frame on top. -/
def append (draft : Draft) (nodes : List Node) : Draft :=
  draft.modifyBuffer (· ++ nodes.map .code)

/-- Changes the frame on top. -/
def modifyTop (draft : Draft) (f : Frame → Frame) : Draft :=
  match draft.frames with
  | [] => draft
  | frame :: below => { draft with frames := f frame :: below }

/-- Changes what lies below the frame on top. -/
def modifyBelow (draft : Draft) (f : Draft → Draft) : Draft :=
  match draft.frames with
  | [] => draft
  | frame :: below =>
    let changed := f ⟨below, draft.body⟩
    ⟨frame :: changed.frames, changed.body⟩

/-- The frame below the one on top. -/
def parent? (draft : Draft) : Option Frame :=
  draft.frames.tail.head?

/-- Puts a frame on top. -/
def push (draft : Draft) (frame : Frame) : Draft :=
  { draft with frames := frame :: draft.frames }

/-- The code that a frame has collected in a buffer of its own. -/
def ownNodes (frame : Frame) : List Node :=
  (frame.own.getD []).map (Fragment.node [])

/-- Takes the frame on top away.  The factory that was placed for it gets its body. -/
def pop? (draft : Draft) : Option (Frame × Draft) :=
  match draft.frames with
  | [] => none
  | frame :: below =>
    let rest : Draft := ⟨below, draft.body⟩
    some (frame,
      if frame.placed then rest.modifyBuffer fun b => b.map (Fragment.fill (ownNodes frame))
      else rest)

/-- The code of the body below some frames, given the body of an open factory. -/
def nodesOf (body : List Fragment) : (inner : List Node) → List Frame → List Node
  | inner, [] => body.map (Fragment.node inner)
  | inner, frame :: below =>
    match frame.own with
    | some own => nodesOf body (if frame.placed then own.map (Fragment.node inner) else []) below
    | none => nodesOf body inner below

/-- The code of the body as it stands, with open factories as far as they have come. -/
def nodes (draft : Draft) : List Node :=
  nodesOf draft.body [] draft.frames

end Draft

end ViewMarkup
