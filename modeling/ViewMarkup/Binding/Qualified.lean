import ViewMarkup.Script.Node

/-!
# Moving an expression under the view model

An expression of a binding is evaluated against a view model.  Names in value positions become
members of it, accesses and calls become optional, and abbreviated properties are spelled out.
Three names are special and stay: `$value`, `$parent`, and `$parents` with the key after it.

* `qualify` is the tree that results.
* `uses` lists what the tree refers to, in the order in which it is read.  A `$parents` without a
  key has no meaning, and appears there as `Use.bareParents`.
-/

namespace ViewMarkup.Binding

open Script (Node)

/-- The variable that holds the view model. -/
def viewModelName : Text := "viewModel"

def valueName : Text := "$value"

def parentName : Text := "$parent"

def parentsName : Text := "$parents"

/-- The variable that holds the support library of the generated code. -/
def runtimeName : Text := "xmlRuntime"

/-- A function of the support library. -/
def runtimeMember (method : Text) : Node :=
  .memberNamed (.identifier runtimeName) method

/-- A call of the support library. -/
def runtimeCall (method : Text) (arguments : List Node) : Node :=
  .callOf (runtimeMember method) arguments

/-- Whether a node is the name `$parents`. -/
def isParents : Node → Bool
  | .identifier name => name = parentsName
  | _ => false

/-- The names that do not belong to the view model. -/
def isSpecial (name : Text) : Bool :=
  name = valueName || name = parentName || name = parentsName

mutual

/-- The expression moved under the view model. -/
def qualify : Node → Node
  | .identifier name =>
    if isSpecial name then .identifier name
    else .memberNamed (.identifier viewModelName) name
  | .member object key computed _ =>
    .member (if isParents object then object else qualify object)
      (if computed then qualify key else key) computed true
  | .call callee args _ => .call (qualify callee) (qualifyAll args) true
  | .property key value computed _ =>
    .property (if computed then qualify key else key) (qualify value) computed false
  | .template quasis es => .template (qualifyAll quasis) (qualifyAll es)
  | .spread argument => .spread (qualify argument)
  | .array items => .array (qualifyAll items)
  | .object ps => .object (qualifyAll ps)
  | .new callee args => .new (qualify callee) (qualifyAll args)
  | .conditional test consequent alternate =>
    .conditional (qualify test) (qualify consequent) (qualify alternate)
  | .binary op left right => .binary op (qualify left) (qualify right)
  | .logical op left right => .logical op (qualify left) (qualify right)
  | .unary op argument => .unary op (qualify argument)
  | .update op argument leading => .update op (qualify argument) leading
  | .assignment op left right => .assignment op (qualify left) (qualify right)
  | .sequence es => .sequence (qualifyAll es)
  | .arrow params body => .arrow (qualifyAll params) (qualify body)
  | .assignmentPattern left right => .assignmentPattern (qualify left) (qualify right)
  | .objectPattern ps => .objectPattern (qualifyAll ps)
  | .expressionStatement e => .expressionStatement (qualify e)
  | .declarator id init => .declarator (qualify id) (qualifyOption init)
  | .declaration kind ds => .declaration kind (qualifyAll ds)
  | .block body => .block (qualifyAll body)
  | .ifStatement test consequent alternate =>
    .ifStatement (qualify test) (qualify consequent) (qualifyOption alternate)
  | .returnStatement argument => .returnStatement (qualifyOption argument)
  | .tryStatement body finalizer => .tryStatement (qualify body) (qualify finalizer)
  | .function id params body => .function (qualify id) (qualifyAll params) (qualify body)
  | .method key params body => .method (qualify key) (qualifyAll params) (qualify body)
  | .classDeclaration id body => .classDeclaration (qualify id) (qualifyAll body)
  | .exportDefault declaration => .exportDefault (qualify declaration)
  | .program body => .program (qualifyAll body)
  | node => node

def qualifyAll : List Node → List Node
  | [] => []
  | node :: rest => qualify node :: qualifyAll rest

def qualifyOption : Option Node → Option Node
  | none => none
  | some node => some (qualify node)

end

/-- One reference of an expression. -/
inductive Use where
  /-- A name of the view model. -/
  | name (name : Text)
  /-- `$value` or `$parent`. -/
  | special
  /-- `$parents` with a key, which is already moved under the view model. -/
  | parents (key : Node)
  /-- `$parents` without a key. -/
  | bareParents

/-- The key of an access, moved under the view model if it is computed. -/
def parentsKey (key : Node) (computed : Bool) : Node :=
  if computed then qualify key
  else
    match key with
    | .identifier name => .string name
    | key => key

mutual

/-- What an expression refers to, in reading order. -/
def uses : Node → List Use
  | .identifier name =>
    if name = parentsName then [.bareParents]
    else if isSpecial name then [.special]
    else [.name name]
  | .member object key computed _ =>
    (if isParents object then [] else uses object) ++ (if computed then uses key else []) ++
      (if isParents object then [.parents (parentsKey key computed)] else [])
  | .call callee args _ => uses callee ++ usesAll args
  | .property key value computed _ => (if computed then uses key else []) ++ uses value
  | .template quasis es => usesAll quasis ++ usesAll es
  | .spread argument => uses argument
  | .array items => usesAll items
  | .object ps => usesAll ps
  | .new callee args => uses callee ++ usesAll args
  | .conditional test consequent alternate => uses test ++ uses consequent ++ uses alternate
  | .binary _ left right => uses left ++ uses right
  | .logical _ left right => uses left ++ uses right
  | .unary _ argument => uses argument
  | .update _ argument _ => uses argument
  | .assignment _ left right => uses left ++ uses right
  | .sequence es => usesAll es
  | .arrow params body => usesAll params ++ uses body
  | .assignmentPattern left right => uses left ++ uses right
  | .objectPattern ps => usesAll ps
  | .expressionStatement e => uses e
  | .declarator id init => uses id ++ usesOption init
  | .declaration _ ds => usesAll ds
  | .block body => usesAll body
  | .ifStatement test consequent alternate => uses test ++ uses consequent ++ usesOption alternate
  | .returnStatement argument => usesOption argument
  | .tryStatement body finalizer => uses body ++ uses finalizer
  | .function id params body => uses id ++ usesAll params ++ uses body
  | .method key params body => uses key ++ usesAll params ++ uses body
  | .classDeclaration id body => uses id ++ usesAll body
  | .exportDefault declaration => uses declaration
  | .program body => usesAll body
  | _ => []

def usesAll : List Node → List Use
  | [] => []
  | node :: rest => uses node ++ usesAll rest

def usesOption : Option Node → List Use
  | none => []
  | some node => uses node

end

/-- Adds a name at the end of a list unless the list holds it. -/
def insertName (names : List Text) (name : Text) : List Text :=
  if names.contains name then names else names ++ [name]

/-- The names without repetitions, each where it first stands. -/
def distinct (names : List Text) : List Text :=
  names.foldl insertName []

/-- The names of the view model among some references. -/
def namesOf (us : List Use) : List Text :=
  us.filterMap fun u => match u with
    | .name name => some name
    | _ => none

/-- The keys after `$parents` among some references. -/
def parentKeysOf (us : List Use) : List Node :=
  us.filterMap fun u => match u with
    | .parents key => some key
    | _ => none

/-- How many of the references are special. -/
def specialCountOf (us : List Use) : Nat :=
  us.countP fun u => match u with
    | .special | .parents _ => true
    | _ => false

/-- Whether `$parents` stands somewhere without a key. -/
def hasBareParents (us : List Use) : Bool :=
  us.any fun u => match u with
    | .bareParents => true
    | _ => false

end ViewMarkup.Binding
