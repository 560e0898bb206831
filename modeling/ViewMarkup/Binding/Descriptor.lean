import ViewMarkup.Binding.Fault
import ViewMarkup.Binding.Qualified
import ViewMarkup.Script.Parser

/-!
# Binding descriptors

The value of an attribute is a binding if it holds an expression between `{{` and `}}`.  A binding
is compiled into a descriptor in these steps.

1. The expression must be a single one, made only of kinds of nodes that have no side effects.
2. Converters after `|` at the top are split off; the rest is the bound value.
3. The bound value and the converters are moved under the view model.
4. The forward expression applies the converters in order.
5. A binding to a plain reference is two-way: changes of the view are written back, through the
   converters in reverse order if there are any.
-/

namespace ViewMarkup

/-- An attribute of a tag, taken apart. -/
structure Attribute where
  /-- The name as written. -/
  name : Text
  /-- The name without what stands before the colon; a dotted path for a sub-property. -/
  propertyName : Text
  /-- What stands before the colon. -/
  qualifier : Option Text
  value : Text
  isEvent : Bool
  isSubProperty : Bool
  isBinding : Bool
  deriving DecidableEq

/-- A compiled binding. -/
structure BindingDescriptor where
  propertyName : Text
  qualifier : Option Text
  isEvent : Bool
  isSubProperty : Bool
  /-- The forward expression. -/
  expression : Script.Node
  /-- The names of the view model that the binding depends on, in order of first use. -/
  properties : List Text
  isTwoWay : Bool
  parentKeys : List Script.Node
  specialCount : Nat
  /-- For a two-way binding with converters: what is assigned to, and the value assigned. -/
  toModel : Option (Script.Node × Script.Node)
  source : Text

namespace Binding

open Script (Node)

/-- What stands between the first `{{` and the next `}}`. -/
def inner? (value : Text) : Option Text :=
  (Text.cut? "\x7b\x7b" value).bind fun (_, rest) =>
    (Text.cut? "\x7d\x7d" rest).map fun (inside, _) => inside

/-- Whether a value holds a binding. -/
def isBinding (value : Text) : Bool :=
  (inner? value).isSome

/-- The expression of a binding, without the blanks around it. -/
def extract (value : Text) : Except BindingFault Text :=
  match inner? value with
  | none => .error (.missing value)
  | some inside =>
    let code := inside.trim
    if code.isEmpty then .error (.empty value) else .ok code

/-- The only expression of a text. -/
def single (code value : Text) : Except BindingFault Node :=
  match Script.parse code with
  | .error fault => .error (.expression fault)
  | .ok [.expressionStatement e] => .ok e
  | .ok _ => .error (.notSingle value)

mutual

/-- Whether an expression is made only of kinds that a binding may hold. -/
def allowed : Node → Bool
  | .identifier _ | .string _ | .number .. | .boolean _ | .null | .templateElement .. | .hole =>
    true
  | .template quasis es => allowedAll quasis && allowedAll es
  | .spread argument => allowed argument
  | .array items => allowedAll items
  | .property key value _ _ => allowed key && allowed value
  | .object ps => allowedAll ps
  | .member object key _ _ => allowed object && allowed key
  | .call callee args _ => allowed callee && allowedAll args
  | .new callee args => allowed callee && allowedAll args
  | .conditional test consequent alternate =>
    allowed test && allowed consequent && allowed alternate
  | .binary _ left right => allowed left && allowed right
  | .logical _ left right => allowed left && allowed right
  | .unary _ argument => allowed argument
  | _ => false

def allowedAll : List Node → Bool
  | [] => true
  | node :: rest => allowed node && allowedAll rest

end

/-- Whether an expression can be a converter. -/
def isConverter : Node → Bool
  | .identifier _ | .member .. | .call .. => true
  | _ => false

/-- Splits the converters off: `a | f | g(x)` is the value `a` with the converters `f` and `g(x)`.
The converters collected so far are those further to the right. -/
def unwrap (value : Text) (later : List Node) : Node → Except BindingFault (Node × List Node)
  | .binary .bitOr left right =>
    if isConverter right then unwrap value (right :: later) left else .error (.converter value)
  | node => .ok (node, later)

/-- Whether an expression is a name, or a chain of accesses that starts at one. -/
def isReference : Node → Bool
  | .member object _ _ _ => isReference object
  | .identifier _ => true
  | _ => false

/-- The call that applies a converter to a value.  A converter written as a call brings arguments;
if it brings none, an explicit `undefined` tells it from a bare reference. -/
def convert (toModel : Bool) (value converter : Node) : Node :=
  let (reference, args) := match converter with
    | .call callee args _ => (callee, if args.isEmpty then [.identifier "undefined"] else args)
    | converter => (converter, [])
  runtimeCall "runConverterCallback" [reference, .array (value :: args), .boolean toModel]

/-- Compiles a binding. -/
def describe (item : Attribute) : Except BindingFault BindingDescriptor := do
  let value := item.value
  let code ← extract value
  let e ← single code value
  if !allowed e then throw (.disallowed value)
  let (bound, converters) ← unwrap value [] e
  let us := uses bound ++ usesAll converters
  if hasBareParents us then throw (.bareParents value)
  let target := qualify bound
  let applied := qualifyAll converters
  let properties := distinct (namesOf us)
  let isTwoWay :=
    !item.isEvent && !item.isSubProperty && isReference bound && !properties.isEmpty
  return {
    propertyName := item.propertyName
    qualifier := item.qualifier
    isEvent := item.isEvent
    isSubProperty := item.isSubProperty
    expression := applied.foldl (convert false) target
    properties
    isTwoWay
    parentKeys := parentKeysOf us
    specialCount := specialCountOf us
    toModel :=
      if isTwoWay && !applied.isEmpty then
        some (target, applied.reverse.foldl (convert true) (.identifier "value"))
      else none
    source := value }

end Binding

end ViewMarkup
