import ViewMarkup.Files
import ViewMarkup.Path

/-!
# A file system in memory

A tree has directories and files, each known by its components from the root.  A path is walked
component by component: every one but the last must lead to a directory, and `..` leads back to the
directory above.
-/

namespace ViewMarkup

/-- What stands at a place of a file system. -/
inductive FileEntry where
  | directory
  | file (content : Text)
  deriving DecidableEq

/-- A file system: the entries below the root, and a working directory. -/
structure FileTree where
  entries : List (List Text × FileEntry)
  workingDir : List Text

namespace FileTree

/-- What stands at a place.  The root is always there. -/
def get? (tree : FileTree) (place : List Text) : Option FileEntry :=
  if place.isEmpty then some .directory else tree.entries.lookup place

/-- Puts an entry at a place, in the stead of what stood there. -/
def set (tree : FileTree) (place : List Text) (entry : FileEntry) : FileTree :=
  { tree with entries := (place, entry) :: tree.entries.filter fun (other, _) => other != place }

/-- Where a component leads from a place, if a directory stands there. -/
def follow (tree : FileTree) (place : List Text) (component : Text) :
    Except FileFault (List Text) :=
  match tree.get? place with
  | none => .error .missing
  | some (.file _) => .error .notDirectory
  | some .directory =>
    .ok (if component = Text.ofString ".." then place.dropLast else place ++ [component])

/-- Where a path leads.  Nothing need stand there. -/
def locate (tree : FileTree) (path : Text) : Except FileFault (List Text) :=
  let start := if path.startsWith "/" then [] else tree.workingDir
  (Path.components path).foldlM tree.follow start

/-- What stands at the end of a path. -/
def entryAt? (tree : FileTree) (path : Text) : Option FileEntry :=
  match tree.locate path with
  | .ok place => tree.get? place
  | .error _ => none

def isDir (tree : FileTree) (path : Text) : Bool :=
  tree.entryAt? path = some .directory

def isFile (tree : FileTree) (path : Text) : Bool :=
  match tree.entryAt? path with
  | some (.file _) => true
  | _ => false

def read (tree : FileTree) (path : Text) : Except FileFault Text := do
  match tree.get? (← tree.locate path) with
  | some (.file content) => return content
  | some .directory => throw .isDirectory
  | none => throw .missing

/-- A content that cannot be encoded leaves an empty file. -/
def write (tree : FileTree) (path content : Text) : Except FileFault Unit × FileTree :=
  match tree.locate path with
  | .error fault => (.error fault, tree)
  | .ok place =>
    if tree.get? place = some .directory then (.error .isDirectory, tree)
    else if !place.dropLast.isEmpty && tree.get? place.dropLast != some .directory then
      (.error .missing, tree)
    else if content.toString?.isNone then (.error .unencodable, tree.set place (.file []))
    else (.ok (), tree.set place (.file content))

/-- Makes one directory, where nothing else may stand. -/
def makeOne (tree : FileTree) (path : Text) : Except FileFault FileTree := do
  let place ← tree.locate path
  match tree.get? place with
  | some .directory => return tree
  | some (.file _) => throw .occupied
  | none =>
    if tree.get? place.dropLast = some .directory then return tree.set place .directory
    else throw .missing

/-- Makes the directories at the ends of longer and longer starts of a path. -/
def makeAlong (tree : FileTree) (root : Text) : (before after : List Text) →
    Except FileFault Unit × FileTree
  | _, [] => (.ok (), tree)
  | before, component :: after =>
    let before := before ++ [component]
    match tree.makeOne (root ++ Text.join "/" before) with
    | .error .occupied => (.error (if after.isEmpty then .occupied else .notDirectory), tree)
    | .error fault => (.error fault, tree)
    | .ok tree => makeAlong tree root before after

/-- Makes a directory and those that it stands in. -/
def makeDir (tree : FileTree) (path : Text) : Except FileFault Unit × FileTree :=
  tree.makeAlong (Path.rootSlashes path) [] (Path.components path)

/-- The paths of everything below a directory, relative to it. -/
def below (tree : FileTree) (dir : Text) : List Text :=
  match tree.locate dir with
  | .error _ => []
  | .ok place =>
    tree.entries.filterMap fun (other, _) =>
      match Path.componentsAfter? place other with
      | none | some [] => none
      | some components => some (Text.join "/" components)

/-- Puts a file or directory at a place below the working directory, with the directories that it
stands in. -/
def place (tree : FileTree) (path : Text) (entry : FileEntry) : FileTree :=
  let (_, tree) := tree.makeDir (Path.parent path)
  match tree.locate path with
  | .ok place => tree.set place entry
  | .error _ => tree

/-- The file system with nothing but a working directory. -/
def empty (workingDir : Text) : FileTree :=
  { (makeDir ⟨[], []⟩ workingDir).2 with workingDir := Path.components workingDir }

/-- The files below the working directory, by their paths from it. -/
def files (tree : FileTree) : List (Text × Text) :=
  tree.entries.filterMap fun (other, entry) =>
    match Path.componentsAfter? tree.workingDir other, entry with
    | some components, .file content => some (Text.join "/" components, content)
    | _, _ => none

instance : Files (StateM FileTree) where
  workingDir := return "/" ++ Text.join "/" (← get).workingDir
  isDir path := return (← get).isDir path
  isFile path := return (← get).isFile path
  read path := return (← get).read path
  write path content := modifyGet fun tree => tree.write path content
  makeDir path := modifyGet fun tree => tree.makeDir path
  below dir := return (← get).below dir

end FileTree

end ViewMarkup
