import ViewMarkup.Binding.Descriptor

/-!
# Binding callbacks

For every view that has bindings, the generated module holds functions that are told apart by the
index of the view.

* `updateBindingsN` evaluates the forward expressions and applies them.  If it is given the name of
  a property, only the bindings that depend on it run.
* `onBindingContextChangeN` detaches the view from its old context and attaches it to the new one.
* `onBindingTargetChangeN_I` writes a change of the view back, one function for each two-way
  binding.

`Binding.callbacks` returns these functions and the statements that subscribe them.
-/

namespace ViewMarkup.Binding

open Script (Node)

def updateName (index : Int) : Text :=
  "updateBindings" ++ Text.ofInt index

def contextChangeName (index : Int) : Text :=
  "onBindingContextChange" ++ Text.ofInt index

def targetChangeName (index : Int) (position : Nat) : Text :=
  "onBindingTargetChange" ++ Text.ofInt index ++ "_" ++ Text.ofNat position

/-- The mark on a view that is writing a change back. -/
def updatingFlag : Text := "_isBindingTargetUpdating"

/-- The mark on a view that names the property being written back. -/
def targetPropertyFlag : Text := "_bindingTargetPropertyName"

/-- Walks all but the last of the segments of a path down from an owner; all steps but the first
are optional. -/
def walkPath (owner : Node) (linked : Bool) : List Text → Node × Text
  | [] => (owner, [])
  | [last] => (owner, last)
  | segment :: rest => walkPath (.accessNamed owner segment linked) true rest

/-- The owner and the last segment of a dotted path. -/
def splitPath (owner : Node) (path : Text) : Node × Text :=
  walkPath owner false (path.splitOn '.')

/-- The key of an access: a computed one, or the name of a part. -/
inductive TargetKey where
  | computed (key : Node)
  | named (name : Text)

namespace TargetKey

/-- The key as an expression. -/
def expression : TargetKey → Node
  | computed key => key
  | named name => .string name

/-- The access to the part of an owner. -/
def access (owner : Node) : TargetKey → Node
  | computed key => .member owner key true false
  | named name => .member owner (.identifier name) false false

end TargetKey

/-- The owner and the key of an access; other expressions cannot be written to. -/
def splitTarget? : Node → Option (Node × TargetKey)
  | .member object key computed _ =>
    if computed then some (object, .computed key)
    else
      match key with
      | .identifier name => some (object, .named name)
      | _ => none
  | _ => none

def statement (e : Node) : Node :=
  .expressionStatement e

def view : Node := .identifier "view"

def args : Node := .identifier "args"

/-- Declares the special names if a binding refers to one. -/
def declareScope (descriptors : List BindingDescriptor) : List Node :=
  if descriptors.any fun d => d.specialCount != 0 then
    let keys := descriptors.flatMap fun d => d.parentKeys
    [.letStatement valueName (.identifier viewModelName),
     .letStatement parentName
       (.accessNamed (.memberNamed view "parent") "bindingContext" true)] ++
    if keys.isEmpty then []
    else
      [.letStatement parentsName
        (runtimeCall "createParentsBindingInstance" [view, .array keys])]
  else []

/-- The statement that applies a value to what a binding targets. -/
def apply (descriptor : BindingDescriptor) (value : Node) : Node :=
  if descriptor.isEvent then
    statement (runtimeCall "setEventListener" [view, .string descriptor.propertyName, value])
  else if descriptor.isSubProperty then
    let (owner, name) := splitPath view descriptor.propertyName
    statement (.logical .and owner (runtimeCall "setPropertyValue" [owner, .string name, value]))
  else
    statement (runtimeCall "setPropertyValue" [view, .string descriptor.propertyName, value])

/-- When a binding runs: for no particular property, or for one that it depends on; and not while
the view itself writes the value back. -/
def guard (descriptor : BindingDescriptor) : Node :=
  let property : Node := .identifier "propertyName"
  let test := descriptor.properties.foldl
    (fun test name => .logical .or test (.binary .strictEq property (.string name)))
    (.binary .eq property .null)
  if descriptor.isTwoWay then
    .logical .and test
      (.binary .strictNe (.memberNamed view targetPropertyFlag) (.string descriptor.propertyName))
  else test

/-- A function of the view model, as the source of a binding. -/
def sourceCallback (body : List Node) : Node :=
  .arrow [.identifier viewModelName] (.block body)

/-- The function that applies the bindings of a view. -/
def updateFunction (index : Int) (descriptors : List BindingDescriptor) : Node :=
  let body := declareScope descriptors ++ descriptors.map fun d =>
    .ifStatement (guard d) (.block [apply d d.expression]) none
  .function (.identifier (updateName index))
    [view, .identifier "bindingContext", .assignmentPattern (.identifier "propertyName") .null]
    (.block [statement (runtimeCall "getCompleteBindingSource"
      [.identifier "bindingContext", sourceCallback body])])

/-- The statement that takes back what a binding has applied. -/
def unset (descriptor : BindingDescriptor) : Node :=
  apply descriptor (if descriptor.isEvent then .null else .identifier "undefined")

/-- The function that follows a change of the binding context. -/
def contextChangeFunction (index : Int) (descriptors : List BindingDescriptor) : Node :=
  let oldValue := Node.memberNamed args "oldValue"
  let newValue := Node.memberNamed args "value"
  let listen (name : Text) := statement (runtimeCall "addBindingSourceListener"
    [view, newValue, .string name, .identifier (updateName index)])
  .function (.identifier (contextChangeName index)) [args]
    (.block ([
      .letStatement "view" (.memberNamed args "object"),
      .ifStatement (.binary .ne oldValue .null)
        (.block [statement (runtimeCall "removeBindingSourceListeners" [view, oldValue])]) none,
      .ifStatement (.binary .eq newValue .null)
        (.block (descriptors.map unset ++ [.returnStatement none])) none,
      statement (.callOf (.identifier (updateName index)) [view, newValue])] ++
      (distinct (descriptors.flatMap fun d => d.properties)).map listen))

/-- What a two-way binding writes to, and the value written. -/
def writeBack (descriptor : BindingDescriptor) : Node × Node :=
  descriptor.toModel.getD (descriptor.expression, .identifier "value")

/-- The function that writes a change of the view back, if the binding has a target that can be
written to. -/
def targetChangeFunction? (index : Int) (position : Nat) (descriptor : BindingDescriptor) :
    Option Node :=
  let (target, value) := writeBack descriptor
  (splitTarget? target).map fun (ownerExpression, key) =>
    let updating := Node.memberNamed view updatingFlag
    let targetProperty := Node.memberNamed view targetPropertyFlag
    let owner : Node := .identifier "owner"
    let setter := Node.memberNamed owner "set"
    let body := declareScope [descriptor] ++ [
      .letStatement "value" (.memberNamed args "value"),
      .letStatement "owner" ownerExpression,
      .ifStatement (.binary .ne owner .null)
        (.block [.ifStatement
          (.binary .strictEq (.unary .typeOf setter) (.string "function"))
          (.block [statement (.callOf setter [key.expression, value])])
          (some (.block [.assign (key.access owner) value]))]) none]
    .function (.identifier (targetChangeName index position)) [args]
      (.block [
        .letStatement "view" (.memberNamed args "object"),
        .ifStatement updating (.block [.returnStatement none]) none,
        .assign updating (.boolean true),
        .assign targetProperty (.string descriptor.propertyName),
        .tryStatement
          (.block [statement (runtimeCall "getCompleteBindingSource"
            [.memberNamed view "bindingContext", sourceCallback body])])
          (.block [
            .assign updating (.boolean false),
            .assign targetProperty .null])])

/-- The statement that subscribes a function to an event of a view. -/
def subscribe (element : Text) (event name : Text) : Node :=
  statement (runtimeCall "addEventListener" [.identifier element, .string event, .identifier name])

/-- The functions of a view with bindings, and the statements that subscribe them. -/
structure Callbacks where
  declarations : List Node
  attach : List Node

/-- The functions for two-way bindings and their subscriptions, counted from a position. -/
def targetCallbacks? (index : Int) (element : Text) : (position : Nat) → List BindingDescriptor →
    Option Callbacks
  | _, [] => some ⟨[], []⟩
  | position, d :: rest => do
    let declaration ← targetChangeFunction? index position d
    let following ← targetCallbacks? index element (position + 1) rest
    return ⟨declaration :: following.declarations,
      subscribe element (d.propertyName ++ "Change") (targetChangeName index position) ::
        following.attach⟩

/-- The callbacks of a view; there are none if a two-way binding cannot be written to. -/
def callbacks? (index : Int) (element : Text) (descriptors : List BindingDescriptor) :
    Option Callbacks :=
  if descriptors.isEmpty then some ⟨[], []⟩
  else do
    let twoWay ← targetCallbacks? index element 0 (descriptors.filter fun d => d.isTwoWay)
    return ⟨updateFunction index descriptors :: contextChangeFunction index descriptors ::
        twoWay.declarations,
      subscribe element "bindingContextChange" (contextChangeName index) :: twoWay.attach⟩

end ViewMarkup.Binding
