import ViewMarkup.Command.Arguments
import ViewMarkup.Command.Session
import ViewMarkup.Document

/-!
# Jobs

A job compiles the documents of a directory, in four stages: it checks the directories, collects
the documents, compiles them one by one, and sums up.  Every stage adds to what is known of the
job, and can end the command.

The output of a document stands at the same place below the output directory as the document
below the input directory.
-/

namespace ViewMarkup.Command

/-- What came of a document. -/
structure Record where
  source : Text
  /-- The file that was written. -/
  output : Option Text
  isOk : Bool
  errors : List Text
  warnings : List Text
  deriving DecidableEq

/-- What is known of a job. -/
structure Job where
  inputDir : Option Text
  outputDir : Option Text
  verbosity : Int
  /-- The only document to compile; if empty, all are. -/
  inputFile : Text
  platform : Option Text
  appRoot : Option Text
  lenient : Bool
  optionsFile : Option Text
  /-- The directories have been checked. -/
  isChecked : Bool
  sources : List Text
  records : Option (List Record)
  deriving DecidableEq

namespace Job

/-- The job that a request asks for. -/
def ofRequest (request : Request) : Job where
  inputDir := some (Path.tidy request.inputDir)
  outputDir := some (Path.tidy request.outputDir)
  verbosity := request.verbosity
  inputFile := request.inputFile
  platform := request.platform
  appRoot := request.appRoot
  lenient := request.lenient
  optionsFile := request.optionsFile
  isChecked := false
  sources := []
  records := none

/-- The banner of the command. -/
def banner : Text :=
  Text.join "\n"
    ["", "                 _       _", "  __  ___ __ ___ | |_   _(_)",
     "  \\ \\/ / '_ \x60 _ \\| | | | | |", "   >  <| | | | | | | |_| | |",
     "  /_/\\_\\_| |_| |_|_|\\__,_|_|", "", "  XML UI markup compiler", ""]

/-- A text that is given and not empty. -/
def given? (t : Option Text) : Option Text :=
  t.filter fun t => !t.isEmpty

/-- A directory that must have been given. -/
def need {m : Type → Type} [Monad m] (dir : Option Text) (otherwise : Stop) : Step m Text :=
  match dir with
  | some dir => return dir
  | none => throw otherwise

variable {m : Type → Type} [Monad m] [Files m]

/-- Checks that the input is there, and makes the output directory. -/
def check (job : Job) : Step m Job := do
  if 2 ≤ job.verbosity then Step.log 2 banner
  Step.log 2 "Checking environment..."
  let inputDir ← need job.inputDir .unset
  if !(← Step.access (Files.isDir inputDir)) then
    Step.fail ("Error: Input directory not found: " ++ inputDir)
  if !job.inputFile.isEmpty then
    let file := Path.child inputDir job.inputFile
    if !(← Step.access (Files.isFile file)) then
      Step.fail ("Error: Input file not found: " ++ file)
  if let some file := given? job.optionsFile then
    if !(← Step.access (Files.isFile (Path.tidy file))) then
      Step.fail ("Error: Options file not found: " ++ file)
  let outputDir ← need job.outputDir .unset
  Step.attempt (Files.makeDir outputDir)
  Step.log 2 ("Output directory: " ++ outputDir)
  return { job with isChecked := true }

/-- Whether components come no later than others: the first that differ decide. -/
def componentsLe : List Text → List Text → Bool
  | [], _ => true
  | _ :: _, [] => false
  | a :: as, b :: bs => if a = b then componentsLe as bs else a.le b

/-- Whether a path is no later than another, component by component. -/
def pathLe (a b : Text) : Bool :=
  componentsLe (Path.components a) (Path.components b)

/-- The documents below a directory. -/
def documents (dir : Text) (below : List Text) : List Text :=
  let names := below.filter fun path => Text.endsWith (Path.name path) ".xml"
  (names.map (Path.child dir)).mergeSort pathLe

/-- Collects the documents. -/
def collect (job : Job) : Step m Job := do
  let sources ←
    if job.inputFile.isEmpty then do
      let inputDir ← need job.inputDir .unset
      pure (documents inputDir (← Step.access (Files.below inputDir)))
    else do
      let inputDir ← need job.inputDir .unjoinable
      pure [Path.child inputDir job.inputFile]
  if sources.isEmpty then
    Step.fail ("Error: No .xml files found in " ++ job.inputDir.getD [])
  Step.log 1 ("Found " ++ Text.ofNat sources.length ++ " source file(s)")
  return { job with sources }

/-- The values of the options: those of the settings, then of the options file, then of the
arguments. -/
def optionValues (settings : Settings) (job : Job) : Step m OptionValues := do
  let values ← match given? job.optionsFile with
    | none => pure (OptionValues.standard settings)
    | some file =>
      let file := Path.tidy file
      let content ← Step.access (Files.read file)
      match OptionValues.load settings file content.toOption with
      | .ok values => pure values
      | .error .nameType => throw (.options .nameType)
      | .error (.value fault) => throw (.options (.value fault))
      | .error fault => Step.fail ("Options error: " ++ fault.message)
  let values := match given? job.platform with
    | some platform => values.set .platform (.text platform.lower)
    | none => values
  let values := if job.lenient then values.set .strict (.boolean false) else values
  let values := match given? job.appRoot with
    | some appRoot => values.set .appRoot (.text appRoot)
    | none => values
  if values.appRoot.isTruthy then return values
  else return values.set .appRoot (job.inputDir.elim .null .text)

/-- Where the output of a document stands. -/
def outputFile (job : Job) (source : Text) : Step m Text := do
  let inputDir ← need job.inputDir .unjoinable
  match Path.writtenBelow? source inputDir with
  | none | some [] => throw .outside
  | some components =>
    let name := Path.withExtension (components.getLast?.getD []) ".js"
    let outputDir ← need job.outputDir .unjoinable
    return Path.child outputDir (Text.join "/" (components.dropLast ++ [name]))

/-- Writes the module of a document. -/
def writeModule (job : Job) (source : Text) (module : Module) : Step m Text := do
  let file ← outputFile job source
  Step.attempt (Files.makeDir (Path.parent file))
  Step.attempt (Files.write file module.code)
  Step.log 2 ("Wrote " ++ file)
  return file

/-- Compiles a document. -/
def compileSource (settings : Settings) (values : OptionValues) (job : Job) (source : Text) :
    Step m Record := do
  let appRoot ← match values.appRoot with
    | .text appRoot => pure (some appRoot)
    | .null => pure none
    | _ => throw .appRootType
  let workingDir ← Step.access Files.workingDir
  let options := values.options settings (Path.modulePath workingDir appRoot source)
  let content ← Step.attempt (Files.read source)
  let (result, channel) := Document.compile options content.unifyLineEnds
  Step.logTrace channel.trace
  match result with
  | .error (.defect defect) => throw (.defect defect)
  | .error (.raised e) => do
    Step.complain (source ++ ": " ++ e.text)
    return ⟨source, none, false, [e.text], []⟩
  | .ok c => do
    Step.logReports source c.reports
    let output ← c.module.mapM (writeModule job source)
    return ⟨source, output, c.isOk, c.errors.map Report.text, c.warnings.map Report.text⟩

/-- Compiles documents one by one. -/
def compileAll (settings : Settings) (values : OptionValues) (job : Job) :
    List Text → Step m (List Record)
  | [] => return []
  | source :: rest => do
    let record ← compileSource settings values job source
    return record :: (← compileAll settings values job rest)

/-- Compiles the documents. -/
def compile (settings : Settings) (job : Job) : Step m Job := do
  let values ← optionValues settings job
  Step.log 1 ("Compiling for platform '" ++ values.platform.display ++ "'")
  return { job with records := some (← compileAll settings values job job.sources) }

/-- Sums up what came of the documents. -/
def summarize (job : Job) : Step m Job := do
  let records := job.records.getD []
  if records.isEmpty then Step.fail "Error: Compilation failed"
  let total := records.length
  let failed := records.countP fun record => !record.isOk
  let warnings := records.foldl (fun n record => n + record.warnings.length) 0
  Step.log 1
    ("Compiled " ++ Text.ofNat (total - failed) ++ "/" ++ Text.ofNat total ++ " document(s)")
  if warnings ≠ 0 then Step.log 1 ("  Warnings: " ++ Text.ofNat warnings)
  for record in records do
    if let some output := record.output then
      Step.log 2 ("  " ++ record.source ++ " -> " ++ output)
  if failed ≠ 0 then
    Step.fail ("Error: " ++ Text.ofNat failed ++ " document(s) failed to compile")
  return job

/-- The stages of a job. -/
inductive Stage where
  | check
  | collect
  | compile
  | summarize
  deriving DecidableEq

namespace Stage

/-- The stages in their order. -/
def all : List Stage :=
  [check, collect, compile, summarize]

/-- Runs a stage. -/
def run (settings : Settings) (job : Job) : Stage → Step m Job
  | check => job.check
  | collect => job.collect
  | compile => job.compile settings
  | summarize => job.summarize

end Stage

/-- Runs stages one after the other. -/
def runStages (settings : Settings) (job : Job) (stages : List Stage) : Step m Job :=
  stages.foldlM (Stage.run settings) job

end Job

end ViewMarkup.Command
