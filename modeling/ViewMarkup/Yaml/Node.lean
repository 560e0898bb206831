import ViewMarkup.Yaml.Scalar

/-!
# Nodes of YAML documents

A node is a value as it is written, with the tag before it.  A mapping can take over the entries of
others: under the key `<<` stands a mapping or a list of mappings, whose entries count unless the
mapping has an entry of its own.

* `Yaml.Node.value` is the value that a node stands for.
-/

namespace ViewMarkup.Yaml

/-- A value as it is written. -/
inductive Node where
  | scalar (tag : Option Tag) (text : Text) (isPlain : Bool)
  | list (tag : Option Tag) (items : List Node)
  | map (tag : Option Tag) (entries : List (Node × Node))
  deriving Inhabited

/-- Whether two values are the same key. -/
def sameKey : Yaml → Yaml → Bool
  | text a, text b => a = b
  | number a, number b => a = b
  | boolean a, boolean b => a = b
  | null, null => true
  | _, _ => false

/-- Adds an entry to a mapping.  A key that is already there keeps its place and takes the new
value. -/
def insertEntry (key value : Yaml) : List (Yaml × Yaml) → List (Yaml × Yaml)
  | [] => [(key, value)]
  | entry :: rest =>
    if sameKey entry.1 key then (entry.1, value) :: rest else entry :: insertEntry key value rest

/-- Lists and mappings cannot be keys. -/
def isKey : Yaml → Bool
  | list _ | map _ => false
  | _ => true

namespace Node

/-- Whether a node is a plain scalar of some text. -/
def isPlainMark (mark : String) : Node → Bool
  | scalar none t isPlain => isPlain && t = Text.ofString mark
  | scalar (some .bare) t _ => t = Text.ofString mark
  | _ => false

/-- Whether a tag fits a list or a mapping. -/
def fits (name : String) : Option Tag → Bool
  | none | some .bare => true
  | some tag => tag.isCore name

mutual

/-- The value that a node stands for. -/
def value : Node → Except YamlFault Yaml
  | scalar tag t isPlain => ofScalar tag t isPlain
  | list tag items => do
    if !fits "seq" tag then throw .malformed
    return .list (← values items)
  | map tag entries => do
    if !fits "map" tag then throw .malformed
    let (taken, own) ← pairs entries
    return .map ((taken ++ own).foldl (fun all (key, value) => insertEntry key value all) [])

def values : List Node → Except YamlFault (List Yaml)
  | [] => return []
  | item :: rest => do
    let item ← value item
    return item :: (← values rest)

/-- The entries that a mapping takes over from others, and its own. -/
def pairs : List (Node × Node) → Except YamlFault (List (Yaml × Yaml) × List (Yaml × Yaml))
  | [] => return ([], [])
  | (key, item) :: rest => do
    if isPlainMark "<<" key then
      let first ← takenFrom item
      let (taken, own) ← pairs rest
      return (first ++ taken, own)
    else
      let name ← if isPlainMark "=" key then pure (.text "=") else value key
      if !isKey name then throw .malformed
      let first ← value item
      let (taken, own) ← pairs rest
      return (taken, (name, first) :: own)

/-- The entries that are taken over from a mapping, or from several. -/
def takenFrom : Node → Except YamlFault (List (Yaml × Yaml))
  | scalar .. => throw .malformed
  | map _ entries => do
    let (taken, own) ← pairs entries
    return taken ++ own
  | list _ items => takenFromAll items

/-- The entries that are taken over from mappings; those of the first win. -/
def takenFromAll : List Node → Except YamlFault (List (Yaml × Yaml))
  | [] => return []
  | map _ entries :: rest => do
    let (taken, own) ← pairs entries
    return (← takenFromAll rest) ++ taken ++ own
  | _ => throw .malformed

end

end Node

end ViewMarkup.Yaml
