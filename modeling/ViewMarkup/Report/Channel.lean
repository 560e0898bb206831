import ViewMarkup.Report.Cause
import ViewMarkup.Report.Location

/-!
# Reports

Errors and warnings are recorded in a channel, each with the place in the document that is being
read.  In strict mode, and if an error is fatal, recording an error also raises it.  A raised error
may be caught and passed to the channel again on its way out; it is then raised again and not
recorded a second time.

* `Channel.notify` records an error and says whether it is raised.
* `Channel.warn` records a warning.
-/

namespace ViewMarkup

/-- Where an error or a warning is said to be. -/
inductive Origin where
  /-- Nothing is known of places. -/
  | unknown
  /-- A place that is set from outside. -/
  | fixed (range : Option SourceRange)
  /-- The tag at the cursor of a tracker. -/
  | tracked (tracker : Tracker)

namespace Origin

/-- The current range.  The offsets of tags are never negative, so a tracker finds them all. -/
def range : Origin → Option SourceRange × Origin
  | unknown => (none, unknown)
  | fixed range => (range, fixed range)
  | tracked tracker =>
    match tracker.range with
    | (.ok range, tracker) => (range, tracked tracker)
    | (.error _, tracker) => (none, tracked tracker)

end Origin

/-- An error on its way: what it is about, where it is, and whether it has been recorded. -/
structure Raised where
  cause : Cause
  range : Option SourceRange
  reported : Bool
  deriving DecidableEq

namespace Raised

/-- An error whose place is not known yet. -/
def ofCause (cause : Cause) : Raised :=
  ⟨cause, none, false⟩

/-- The text of an error, with the place if it is known. -/
def text (e : Raised) : Text :=
  match e.range with
  | none => e.cause.message
  | some range =>
    e.cause.message ++ ", at " ++ Text.ofInt range.start.line ++ ":" ++
      Text.ofInt range.start.column

end Raised

/-- An entry of a channel. -/
inductive Report where
  | error (cause : Cause) (range : Option SourceRange)
  | warning (message : Text) (range : Option SourceRange)
  deriving DecidableEq

namespace Report

def isError : Report → Bool
  | error .. => true
  | warning .. => false

def message : Report → Text
  | error cause _ => cause.message
  | warning message _ => message

def range : Report → Option SourceRange
  | error _ range => range
  | warning _ range => range

/-- The word for how bad a report is. -/
def severity (report : Report) : Text :=
  if report.isError then "error" else "warning"

/-- A report on one line. -/
def text (report : Report) : Text :=
  report.severity ++ ": " ++ report.message ++
    match report.range with
    | none => []
    | some range =>
      " (" ++ Text.ofInt range.start.line ++ ":" ++ Text.ofInt range.start.column ++ ")"

end Report

/-- A line of the trace, shown from a verbosity on. -/
structure TraceLine where
  level : Nat
  text : Text
  deriving DecidableEq

/-- The reports of one compilation, and the trace of what it does. -/
structure Channel where
  /-- Whether an error is raised after it has been recorded. -/
  strict : Bool
  origin : Origin
  reports : List Report
  trace : List TraceLine

namespace Channel

/-- A channel without reports. -/
def empty (strict : Bool) (origin : Origin) : Channel :=
  ⟨strict, origin, [], []⟩

/-- Adds a line to the trace. -/
def log (channel : Channel) (level : Nat) (text : Text) : Channel :=
  { channel with trace := channel.trace ++ [⟨level, text⟩] }

/-- Adds a report, and a line on it to the trace. -/
def record (channel : Channel) (report : Report) : Channel :=
  { channel with reports := channel.reports ++ [report] }.log 3 report.text

/-- What comes of an error that has been passed to a channel. -/
inductive Verdict where
  | recorded (e : Raised)
  | raised (e : Raised)

/-- Records an error, unless that has been done.  Its place is taken from the channel if it brings
none. -/
def notify (channel : Channel) (e : Raised) (fatal : Bool) : Verdict × Channel :=
  if e.reported then (.raised e, channel)
  else
    let (range, origin) := match e.range with
      | some range => (some range, channel.origin)
      | none => channel.origin.range
    let channel := { channel with origin }.record (.error e.cause range)
    if channel.strict || fatal then (.raised ⟨e.cause, range, true⟩, channel)
    else (.recorded ⟨e.cause, range, false⟩, channel)

/-- Records a warning. -/
def warn (channel : Channel) (message : Text) : Channel :=
  let (range, origin) := channel.origin.range
  { channel with origin }.record (.warning message range)

/-- Sets the place that the channel gives to reports. -/
def setOrigin (channel : Channel) (origin : Origin) : Channel :=
  { channel with origin }

end Channel

end ViewMarkup
