import ViewMarkup.Script.Node

/-!
# Buffers of generated code

The statements of a module are collected in buffers.  Most are appended; some are put into the
middle, and sometimes the end of a buffer is taken away and used elsewhere.

A buffer holds fragments.  A fragment is a finished piece of code, or one of two pieces that are
finished later: the branch of a slot, which may get a second half, and a factory, whose body is
still being collected in a buffer of its own.
-/

namespace ViewMarkup

open Script (Node)

namespace Buffer

/-- The place that an index stands for in a list of some length.  A negative index counts from the
end; an index outside stands for the nearest end. -/
def place (length : Nat) : (index : Int) → Nat
  | .ofNat n => min n length
  | .negSucc n => length - (n + 1)

/-- The list with items put in at an index. -/
def insertAt {α : Type} (items : List α) (index : Int) (items' : List α) : List α :=
  let n := place items.length index
  items.take n ++ items' ++ items.drop n

/-- The list cut in two at an index. -/
def cutAt {α : Type} (items : List α) (index : Int) : List α × List α :=
  items.splitAt (place items.length index)

end Buffer

/-- What a factory is assigned to or held by. -/
inductive FactoryShape where
  /-- A function that builds one view, assigned to a property. -/
  | template (target : Node)
  /-- An array of keyed templates, assigned to a property. -/
  | templateArray (target : Node)
  /-- An object with a key and a function that builds one view. -/
  | keyedTemplate (key : Text)

namespace FactoryShape

/-- The factory with a body. -/
def node (body : List Node) : FactoryShape → Node
  | template target => .assign target (.arrow [] (.block body))
  | templateArray target => .assign target (.array body)
  | keyedTemplate key =>
    .object [.property (.identifier "key") (.string key) false false,
      .property (.identifier "createView") (.arrow [] (.block body)) false false]

end FactoryShape

/-- A piece of generated code. -/
inductive Fragment where
  | code (node : Node)
  /-- The branch of a slot that has no fallback yet: if content was given under the name of the
  slot, the variable of the slot takes it over. -/
  | slot (element name : Text)
  /-- A factory whose body is collected elsewhere. -/
  | factory (shape : FactoryShape)

namespace Fragment

/-- The contents given for the slots of a component. -/
def slotRegistry : Node :=
  .memberNamed .this "$slotViews"

/-- The branch of a slot, with what is done if no content was given. -/
def slotBranch (element name : Text) (fallback : Option Node) : Node :=
  .ifStatement (.accessNamed slotRegistry name true)
    (.block [.assign (.identifier element) (.memberNamed slotRegistry name),
      .expressionStatement (.unary .delete (.memberNamed slotRegistry name))])
    fallback

/-- The code of a fragment, given the body of a factory that is still open. -/
def node (inner : List Node) : Fragment → Node
  | code node => node
  | slot element name => slotBranch element name none
  | factory shape => shape.node inner

/-- The fragment with the body of an open factory filled in. -/
def fill (inner : List Node) : Fragment → Fragment
  | factory shape => code (shape.node inner)
  | fragment => fragment

end Fragment

end ViewMarkup
