import ViewMarkup.Command.Job

/-!
# The command

The command reads its arguments, makes the output directory, and runs the job that it is asked
for.

* `Command.run` is the whole command over any file system.
-/

namespace ViewMarkup.Command

/-- The name and the version of the command. -/
def versionText : Text := "xmlui 1.0.0"

/-- How the command ended: on its own, or early. -/
abbrev Ending := Except Stop Unit

/-- The code that a command ends with; a failure that the command has not explained has none. -/
def exitCode? : Ending → Option Nat
  | .ok () => some 0
  | .error (.exit code) => some code
  | .error _ => none

variable {m : Type → Type} [Monad m] [Files m]

/-- Makes the output directory, and checks that the input directory is one. -/
def prepare (inputDir outputDir : Text) : Step m Unit := do
  match ← Step.access (Files.makeDir outputDir) with
  | .error .occupied => Step.fail ("Not a directory: " ++ outputDir)
  | .error fault => throw (.file fault)
  | .ok () => pure ()
  if !(← Step.access (Files.isDir inputDir)) then
    Step.fail ("Not a directory: " ++ inputDir)

/-- Does what a request asks for. -/
def fulfil (settings : Settings) (request : Request) : Step m Unit := do
  let job := Job.ofRequest request
  prepare (Path.tidy request.inputDir) (Path.tidy request.outputDir)
  discard (job.runStages settings Job.Stage.all)

/-- Runs the command with its arguments. -/
def run (settings : Settings) (arguments : List Text) : m (Ending × Session) :=
  match read arguments with
  | .usage => return (.error (.exit 2), .start none)
  | .help => return (.ok (), .start none)
  | .version => return (.ok (), (Session.start none).put (.printed versionText))
  | .request request =>
    (fulfil settings request).run.run (.start (some (request.verbosity : Int)))

end ViewMarkup.Command
