import ViewMarkup.Yaml.Node
import ViewMarkup.Yaml.Token

/-!
# Reading YAML documents

A document is read from its tokens into a node.  Only one document may stand in a text.  A node can
have a name, and a reference to the name stands for the node.

* `Yaml.read` is the value of the document in a text; an empty text stands for nothing.
-/

namespace ViewMarkup.Yaml

/-- What is left to read, and the nodes that have been named. -/
structure Source where
  tokens : List Token
  anchors : List (Text × Node)

/-- A step of reading. -/
abbrev Read := StateT Source (Except YamlFault)

def head : Read (Option Token) := do
  return (← get).tokens.head?

def skip : Read Unit :=
  modify fun s => { s with tokens := s.tokens.tail }

def refuse {α : Type} : Read α :=
  throw .malformed

/-- Whether the next token is one of some tokens, or there is none. -/
def stands (tokens : List Token) : Read Bool := do
  return (← head).all fun token => tokens.contains token

/-- Passes a token if it stands here. -/
def pass? (token : Token) : Read Bool := do
  if (← head) = some token then
    skip
    return true
  else return false

/-- The node of a value that is not written. -/
def Node.empty : Node :=
  .scalar none [] true

/-- The anchor and the tag before a value, in either order. -/
def properties : Read (Option Text × Option Tag) := do
  match (← get).tokens with
  | .anchor name :: .tag tag :: _ =>
    skip
    skip
    return (some name, some tag)
  | .tag tag :: .anchor name :: _ =>
    skip
    skip
    return (some name, some tag)
  | .anchor name :: _ =>
    skip
    return (some name, none)
  | .tag tag :: _ =>
    skip
    return (none, some tag)
  | _ => return (none, none)

/-- Where a value stands: in a block, in a block where a list needs no deeper indentation, or
between brackets. -/
inductive Place where
  | block
  | blockOrEntries
  | flow
  deriving DecidableEq

mutual

/-- The node of a value. -/
def value (fuel : Nat) (place : Place) : Read Node := do
  match fuel with
  | 0 => refuse
  | fuel + 1 =>
    if let some (.reference name) := ← head then
      skip
      match (← get).anchors.lookup name with
      | some value => return value
      | none => refuse
    else
      let (anchor, tag) ← properties
      if let some name := anchor then
        if ((← get).anchors.lookup name).isSome then refuse
      let result ← content fuel place tag (anchor.isSome || tag.isSome)
      if let some name := anchor then
        modify fun s => { s with anchors := (name, result) :: s.anchors }
      return result

/-- The node of a value after its anchor and tag. -/
def content (fuel : Nat) (place : Place) (tag : Option Tag) (mayBeEmpty : Bool) : Read Node := do
  match fuel with
  | 0 => refuse
  | fuel + 1 =>
    match ← head with
    | some (.scalar content isPlain) =>
      skip
      return .scalar tag content isPlain
    | some .flowSequenceStart =>
      skip
      return .list tag (← flowItems fuel true)
    | some .flowMappingStart =>
      skip
      return .map tag (← flowEntries fuel true)
    | some .blockSequenceStart =>
      if place = .flow then refuse
      skip
      return .list tag (← blockItems fuel)
    | some .blockMappingStart =>
      if place = .flow then refuse
      skip
      return .map tag (← blockEntries fuel)
    | some .blockEntry =>
      if place = .blockOrEntries then return .list tag (← indentlessItems fuel)
      else if mayBeEmpty then return .scalar tag [] true
      else refuse
    | _ => if mayBeEmpty then return .scalar tag [] true else refuse

/-- The node of a value, which is not written if one of some tokens stands in its place. -/
def valueUnless (fuel : Nat) (place : Place) (ends : List Token) : Read Node := do
  match fuel with
  | 0 => refuse
  | fuel + 1 =>
    if (← head).any fun token => ends.contains token then return .empty else value fuel place

/-- The entries of a list in a block. -/
def blockItems (fuel : Nat) : Read (List Node) := do
  match fuel with
  | 0 => refuse
  | fuel + 1 =>
    if ← pass? .blockEntry then
      let item ← valueUnless fuel .block [.blockEntry, .blockEnd]
      return item :: (← blockItems fuel)
    else if ← pass? .blockEnd then return []
    else refuse

/-- The entries of a list that is no deeper than the mapping around it. -/
def indentlessItems (fuel : Nat) : Read (List Node) := do
  match fuel with
  | 0 => refuse
  | fuel + 1 =>
    if ← pass? .blockEntry then
      let item ← valueUnless fuel .block [.blockEntry, .key, .value, .blockEnd]
      return item :: (← indentlessItems fuel)
    else return []

/-- The entries of a mapping in a block. -/
def blockEntries (fuel : Nat) : Read (List (Node × Node)) := do
  match fuel with
  | 0 => refuse
  | fuel + 1 =>
    if ← pass? .key then
      let key ← valueUnless fuel .blockOrEntries [.key, .value, .blockEnd]
      let value ←
        if ← pass? .value then valueUnless fuel .blockOrEntries [.key, .value, .blockEnd]
        else pure .empty
      return (key, value) :: (← blockEntries fuel)
    else if ← pass? .blockEnd then return []
    else refuse

/-- The entries of a list between brackets. -/
def flowItems (fuel : Nat) (isFirst : Bool) : Read (List Node) := do
  match fuel with
  | 0 => refuse
  | fuel + 1 =>
    if ← pass? .flowSequenceEnd then return []
    if !isFirst then
      if !(← pass? .flowEntry) then refuse
    if ← pass? .flowSequenceEnd then return []
    if ← pass? .key then
      let key ← valueUnless fuel .flow [.value, .flowEntry, .flowSequenceEnd]
      let value ←
        if ← pass? .value then valueUnless fuel .flow [.flowEntry, .flowSequenceEnd] else pure .empty
      return .map none [(key, value)] :: (← flowItems fuel false)
    else
      let item ← value fuel .flow
      return item :: (← flowItems fuel false)

/-- The entries of a mapping between braces. -/
def flowEntries (fuel : Nat) (isFirst : Bool) : Read (List (Node × Node)) := do
  match fuel with
  | 0 => refuse
  | fuel + 1 =>
    if ← pass? .flowMappingEnd then return []
    if !isFirst then
      if !(← pass? .flowEntry) then refuse
    if ← pass? .flowMappingEnd then return []
    if ← pass? .key then
      let key ← valueUnless fuel .flow [.value, .flowEntry, .flowMappingEnd]
      let value ←
        if ← pass? .value then valueUnless fuel .flow [.flowEntry, .flowMappingEnd] else pure .empty
      return (key, value) :: (← flowEntries fuel false)
    else
      let key ← value fuel .flow
      return (key, .empty) :: (← flowEntries fuel false)

end

/-- Passes every copy of a token in front. -/
def passAll (token : Token) : Read Unit :=
  modify fun s => { s with tokens := s.tokens.dropWhile fun t => t = token }

/-- The node of a whole document. -/
def document : Read Node := do
  let fuel := 4 * (← get).tokens.length + 4
  if (← head).isNone then return .empty
  let result ←
    if ← stands [.directive, .documentStart] then
      passAll .directive
      if !(← pass? .documentStart) then refuse
      if ← stands [.directive, .documentStart, .documentEnd] then pure .empty else value fuel .block
    else value fuel .block
  passAll .documentEnd
  if (← head).isSome then refuse
  return result

/-- Reads the document in a text. -/
def read (source : Text) : Except YamlFault Yaml := do
  let tokens ← tokens source
  let (root, _) ← document.run ⟨tokens, []⟩
  root.value

end ViewMarkup.Yaml
