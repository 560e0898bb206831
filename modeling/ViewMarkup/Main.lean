import ViewMarkup.Command
import ViewMarkup.Settings.Environment

/-!
# The program

Runs the command over the files of the system.  The settings come from the environment and from
the file `.env` of the working directory.
-/

namespace ViewMarkup.Program

/-- A text as a string; half of a surrogate pair becomes a replacement character. -/
def display (t : Text) : String :=
  String.ofList (t.map fun c => (c.scalar?).getD '\uFFFD')

/-- The fault that an error of the system stands for. -/
def fault : IO.Error → FileFault
  | .noFileOrDirectory .. => .missing
  | .inappropriateType .. => .notDirectory
  | .alreadyExists .. => .occupied
  | _ => .refused

/-- Does something with the system, and tells what went wrong. -/
def attempt (action : IO α) : IO (Except FileFault α) := do
  try
    return .ok (← action)
  catch e =>
    return .error (fault e)

/-- Answers a question about what stands at a path.  The answer is no if nothing does. -/
def ask (action : IO Bool) : IO Bool :=
  try action catch _ => return false

def isDirectory (path : Text) : IO Bool :=
  ask do (← IO.FS.realPath (display path)).isDir

def isPlainFile (path : Text) : IO Bool :=
  ask do
    let file ← IO.FS.realPath (display path)
    return (← file.pathExists) && !(← file.isDir)

/-- Makes a directory, unless something else stands there. -/
def makeDirectory (path : Text) : IO (Except FileFault Unit) := do
  if ← isPlainFile path then return .error .occupied
  attempt (IO.FS.createDirAll (display path))

/-- Writes a file.  A content that cannot be encoded leaves an empty file. -/
def writeText (path content : Text) : IO (Except FileFault Unit) := do
  if ← isDirectory path then return .error .isDirectory
  match content.toString? with
  | some content => attempt (IO.FS.writeFile (display path) content)
  | none =>
    match ← attempt (IO.FS.writeFile (display path) "") with
    | .ok () => return .error .unencodable
    | .error fault => return .error fault

def readText (path : Text) : IO (Except FileFault Text) := do
  if ← isDirectory path then return .error .isDirectory
  attempt (return Text.ofString (← IO.FS.readFile (display path)))

/-- The paths of everything below a directory, relative to it. -/
def pathsBelow (dir : Text) : IO (List Text) := do
  if !(← isDirectory dir) then return []
  let root ← IO.FS.realPath (display dir)
  let rootText := Text.ofString root.toString
  return (← root.walkDir).toList.filterMap fun path =>
    (Path.writtenBelow? path.toString rootText).map (Text.join "/")

instance : Files IO where
  workingDir := return (← IO.currentDir).toString
  isDir := isDirectory
  isFile := isPlainFile
  read := readText
  write := writeText
  makeDir := makeDirectory
  below := pathsBelow

/-- The variables of the environment. -/
def environment : IO (List (Text × Text)) := do
  let content ← try IO.FS.readFile "/proc/self/environ" catch _ => return []
  return (Text.ofString content).splitOn '\x00' |>.filterMap fun item =>
    Text.cut? "=" item

/-- Puts out a line. -/
def put : Command.Line → IO Unit
  | .printed t => IO.println (display t)
  | .complaint t => IO.eprintln (display t)
  | .logged .debug t => IO.eprintln ("DEBUG " ++ display t)
  | .logged .warning t => IO.eprintln ("WARNING " ++ display t)
  | .logged .error t => IO.eprintln ("ERROR " ++ display t)

/-- What is said about settings that cannot be read. -/
def settingsText : SettingsFault → Text
  | .notJson => "Settings error: not JSON"
  | .invalid places => "Settings error: " ++ Text.join ", " places

/-- Runs the command and gives the code that it ends with. -/
def run (arguments : List String) : IO UInt32 := do
  let file ← readText ".env"
  match Settings.read (← environment) file.toOption with
  | .error fault =>
    IO.eprintln (display (settingsText fault))
    return 1
  | .ok settings =>
    let (ending, session) ← Command.run settings (arguments.map Text.ofString)
    session.lines.forM put
    return ((Command.exitCode? ending).getD 1).toUInt32

end ViewMarkup.Program

/-- The entry of the program. -/
def main (arguments : List String) : IO UInt32 :=
  ViewMarkup.Program.run arguments
