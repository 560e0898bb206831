import ViewMarkup.Files
import ViewMarkup.Options.File
import ViewMarkup.Tag.Walk

/-!
# Sessions

While the command runs it prints, complains and logs; all that is kept in order.  Log lines are
shown from a verbosity on, and not at all if nobody listens.

A command ends early with a reason.  What has been put out before stays.
-/

namespace ViewMarkup.Command

/-- How bad a line of the log is. -/
inductive Severity where
  | debug
  | warning
  | error
  deriving DecidableEq

/-- A line that the command puts out. -/
inductive Line where
  /-- On the standard output. -/
  | printed (text : Text)
  /-- On the standard error output. -/
  | complaint (text : Text)
  | logged (severity : Severity) (text : Text)
  deriving DecidableEq

/-- Why a command ends early. -/
inductive Stop where
  /-- The command has said why. -/
  | exit (code : Nat)
  | file (fault : FileFault)
  /-- The names or values in an options file cannot be read. -/
  | options (fault : OptionsFault)
  /-- The root of the application is not a text. -/
  | appRootType
  | defect (defect : Defect)
  /-- A directory that was not given is looked at. -/
  | unset
  /-- A directory that was not given is joined with a path. -/
  | unjoinable
  /-- A document does not stand below the input directory. -/
  | outside

/-- What has been put out, and to whom. -/
structure Session where
  /-- The verbosity of the one who listens to the log. -/
  listener : Option Int
  lines : List Line

/-- A step of a command. -/
abbrev Step (m : Type → Type) := ExceptT Stop (StateT Session m)

namespace Session

/-- A session in which nothing has been put out. -/
def start (listener : Option Int) : Session :=
  ⟨listener, []⟩

/-- Puts out a line. -/
def put (session : Session) (line : Line) : Session :=
  { session with lines := session.lines ++ [line] }

/-- Whether lines of a level are shown. -/
def shows (session : Session) (level : Nat) : Bool :=
  session.listener.any fun verbosity => decide ((level : Int) ≤ verbosity)

/-- Logs a line of a level. -/
def log (session : Session) (severity : Severity) (level : Nat) (text : Text) : Session :=
  if session.shows level then session.put (.logged severity text) else session

/-- What was printed. -/
def printed (session : Session) : Text :=
  (session.lines.filterMap fun line => match line with
    | .printed text => some (text ++ "\n")
    | _ => none).flatten

/-- What was complained. -/
def complaints (session : Session) : Text :=
  (session.lines.filterMap fun line => match line with
    | .complaint text => some (text ++ "\n")
    | _ => none).flatten

/-- The log. -/
def logLines (session : Session) : List (Severity × Text) :=
  session.lines.filterMap fun line => match line with
    | .logged severity text => some (severity, text)
    | _ => none

end Session

namespace Step

variable {m : Type → Type} [Monad m]

/-- Does something with files. -/
def access (action : m α) : Step m α :=
  ExceptT.lift (StateT.lift action)

/-- Does something with files that may fail. -/
def attempt (action : m (Except FileFault α)) : Step m α := do
  match ← access action with
  | .ok result => return result
  | .error fault => throw (.file fault)

/-- Logs a line for those who want to know what goes on. -/
def log (level : Nat) (text : Text) : Step m Unit :=
  modify fun session => session.log .debug level text

/-- Complains. -/
def complain (text : Text) : Step m Unit :=
  modify fun session => session.put (.complaint text)

/-- Complains and ends the command. -/
def fail (text : Text) : Step m α := do
  complain text
  throw (.exit 1)

/-- Logs the trace of a compilation. -/
def logTrace : List TraceLine → Step m Unit
  | [] => return
  | line :: rest => do
    log line.level line.text
    logTrace rest

/-- Logs the reports on a document. -/
def logReports (source : Text) : List Report → Step m Unit
  | [] => return
  | report :: rest => do
    let place : Text := match report.range with
      | none => ""
      | some range =>
        ":" ++ Text.ofInt range.start.line ++ ":" ++ Text.ofInt range.start.column
    let severity := if report.isError then Severity.error else .warning
    modify fun session => session.log severity 1 (source ++ place ++ ": " ++ report.message)
    logReports source rest

end Step

end ViewMarkup.Command
