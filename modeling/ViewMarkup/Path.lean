import ViewMarkup.Text.Basic

/-!
# Paths

Paths are texts with slashes.  This module takes them apart and resolves them without looking at
any file system: `.` and doubled slashes disappear, and `..` takes back the component before it.
-/

namespace ViewMarkup.Path

/-- The path split behind its last slash. -/
def splitLast (path : Text) : Text × Text :=
  let name := (path.reverse.takeWhile fun c => c != .char '/').reverse
  (path.take (path.length - name.length), name)

/-- The last component. -/
def baseName (path : Text) : Text :=
  (splitLast path).2

/-- What stands before the last component, without slashes at its end unless it is only slashes. -/
def dirName (path : Text) : Text :=
  let head := (splitLast path).1
  let trimmed := (head.reverse.dropWhile fun c => c == .char '/').reverse
  if trimmed.isEmpty then head else trimmed

/-- The last component without its extension: what the last dot cuts off, unless only dots stand
before it. -/
def stem (name : Text) : Text :=
  let extension := (name.reverse.takeWhile fun c => c != .char '.').reverse
  let before := name.take (name.length - extension.length - 1)
  if extension.length = name.length then name
  else if before.all fun c => c == .char '.' then name
  else before

/-- The path without its extension. -/
def dropExtension (path : Text) : Text :=
  let (head, name) := splitLast path
  head ++ stem name

/-- A path continued by another; an absolute continuation stands alone. -/
def join (dir path : Text) : Text :=
  if path.startsWith "/" then path
  else if dir.isEmpty || dir.endsWith "/" then dir ++ path
  else dir ++ "/" ++ path

/-- One more component after the components of a path, the last one first. -/
def descend (absolute : Bool) (components : List Text) (c : Text) : List Text :=
  if c.isEmpty || c = Text.ofString "." then components
  else if c = Text.ofString ".." then
    match components with
    | [] => if absolute then [] else [c]
    | last :: rest => if last = Text.ofString ".." then c :: components else rest
  else c :: components

/-- The components of a path after `.`, `..` and empty ones have taken effect. -/
def normalComponents (absolute : Bool) (path : Text) : List Text :=
  ((path.splitOn '/').foldl (descend absolute) []).reverse

/-- The slashes that a normal path starts with: none, one, or exactly two. -/
def rootSlashes (path : Text) : Text :=
  match (path.takeWhile fun c => c == .char '/').length with
  | 0 => ""
  | 2 => "//"
  | _ => "/"

/-- The shortest path with the same meaning. -/
def normalize (path : Text) : Text :=
  let root := rootSlashes path
  let result := root ++ Text.join "/" (normalComponents (!root.isEmpty) path)
  if result.isEmpty then "." else result

/-- Resolves a path written in a document: `~/` is the root of the application, and everything else
is relative to the directory of the document. -/
def resolve (uri dir : Text) : Text :=
  match Text.after? "~/" uri with
  | some rest => rest
  | none => normalize (join dir uri)

/-- The components of the absolute form of a path. -/
def absoluteComponents (workingDir path : Text) : List Text :=
  normalComponents true (join workingDir path)

/-- The components that are left after a common start. -/
def componentsAfter? : (lead components : List Text) → Option (List Text)
  | [], components => some components
  | _ :: _, [] => none
  | a :: lead, b :: components => if a = b then componentsAfter? lead components else none

/-- A path relative to a directory that holds it. -/
def relativeTo? (workingDir path dir : Text) : Option Text :=
  (componentsAfter? (absoluteComponents workingDir dir) (absoluteComponents workingDir path)).map
    fun components => if components.isEmpty then "." else Text.join "/" components

/-- The components of a path as written, without `.` and empty ones. -/
def components (path : Text) : List Text :=
  (path.splitOn '/').filter fun c => !(c.isEmpty || c = Text.ofString ".")

/-- A path of components after the slashes that it starts with. -/
def ofComponents (root : Text) (components : List Text) : Text :=
  let path := root ++ Text.join "/" components
  if path.isEmpty then "." else path

/-- A path as it is shown: without `.` and empty components, but with every `..`. -/
def tidy (path : Text) : Text :=
  ofComponents (rootSlashes path) (components path)

/-- The path of what a component or more lead to from a directory. -/
def child (dir path : Text) : Text :=
  tidy (join dir path)

/-- The directory that a path stands in. -/
def parent (path : Text) : Text :=
  ofComponents (rootSlashes path) (components path).dropLast

/-- The components of a path after those of a directory, both as written. -/
def writtenBelow? (path dir : Text) : Option (List Text) :=
  if rootSlashes path = rootSlashes dir then
    componentsAfter? (components dir) (components path)
  else none

/-- A name with another extension.  A dot that starts or ends a name makes no extension. -/
def withExtension (name extension : Text) : Text :=
  let tail := (name.reverse.takeWhile fun c => c != .char '.').reverse
  let before := name.take (name.length - tail.length - 1)
  if tail.length = name.length || tail.isEmpty || before.isEmpty then name ++ extension
  else before ++ extension

/-- The last component of a path as written; empty if it has none. -/
def name (path : Text) : Text :=
  ((components path).getLast?).getD []

/-- The path of a document below the root of the application.  A document outside it is known by
its name alone. -/
def modulePath (workingDir : Text) (appPath : Option Text) (source : Text) : Text :=
  match appPath.filter fun dir => !dir.isEmpty with
  | none => name source
  | some dir => (relativeTo? workingDir source dir).getD (name source)

end ViewMarkup.Path
