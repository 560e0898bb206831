import ViewMarkup.Module
import ViewMarkup.Xml.Reader

/-!
# Compiling documents

A document is read tag by tag, and its tags are walked over.  At the end, if a root was found, the
module is assembled.  A document with an XML declaration is not compiled: its module exports the
text as it is.
-/

namespace ViewMarkup

open Script (Node)

/-- The outcome of compiling a document. -/
structure Compilation where
  /-- The module; there is none without a root. -/
  module : Option Module
  reports : List Report
  /-- The document was exported as it is. -/
  isRaw : Bool

namespace Compilation

def errors (c : Compilation) : List Report :=
  c.reports.filter Report.isError

def warnings (c : Compilation) : List Report :=
  c.reports.filter fun report => !report.isError

/-- Whether there is a module and no error. -/
def isOk (c : Compilation) : Bool :=
  c.module.isSome && c.errors.isEmpty

end Compilation

namespace Document

/-- Whether a document starts with an XML declaration, perhaps after a byte order mark and
blanks. -/
def isRaw (content : Text) : Bool :=
  let content := (Text.after? ['\uFEFF'] content).getD content
  match Text.after? "<?xml" content.trimStart with
  | some (c :: _) => c = '?' || c.isBlank
  | _ => false

/-- The element around the tags of a document. -/
def containerName : Text := "xmlui-document"

/-- Puts the cursor on a tag. -/
def setCursor (offset : Nat) : Walk.Step Unit :=
  modify fun w =>
    match w.channel.origin with
    | .tracked tracker =>
      { w with channel := w.channel.setOrigin (.tracked (tracker.setCursor offset)) }
    | _ => w

/-- Records the attributes of a tag one by one. -/
def setAttributes : AttributeMap → Walk.Step Unit
  | [] => return
  | (name, value) :: rest => do
    Walk.setAttribute name value
    setAttributes rest

/-- Walks over a tag. -/
def tag (options : Options) : Xml.Event → Walk.Step Unit
  | .startTag offset name attributes => do
    setCursor offset
    Walk.openTag options name
    setAttributes attributes
    Walk.completeTag options (some attributes)
  | .endTag offset name => do
    setCursor offset
    Walk.closeTag options name

/-- Walks over tags one after the other. -/
def tags (options : Options) : List Xml.Event → Walk.Step Unit
  | [] => return
  | event :: rest => do
    tag options event
    tags options rest

/-- Raises the fault that the reading of a document ended with. -/
def raiseFault (misread : Xml.Misread) : Walk.Step Unit := do
  let w ← get
  let position : Position := ⟨misread.mark.line, misread.mark.column + 1⟩
  let (verdict, channel) :=
    w.channel.notify ⟨.malformed misread.fault, some ⟨position, position⟩, false⟩ true
  set { w with channel }
  match verdict with
  | .recorded _ => return
  | .raised e => throw (.raised e)

/-- Walks over a whole document. -/
def walk (options : Options) (content : Text) : Walk.Step Unit := do
  let (events, misread) := Xml.read containerName content
  tags options events
  if let some misread := misread then raiseFault misread
  Walk.finish

/-- The walk before the first tag of a document. -/
def startWalk (options : Options) (content : Text) : Walk :=
  let channel := Channel.empty options.strict (.tracked (.ofText content))
  .start (channel.log 2 ("Compiling " ++ options.modulePath))

/-- What comes of a walk over a document: in strict mode an error is passed on, otherwise the
document has no module. -/
def conclude (options : Options) (result : EStateM.Result Failure Walk Unit) :
    EStateM.Result Failure Walk (Option Module) :=
  match result with
  | .error (.raised e) w => if options.strict then .error (.raised e) w else .ok none w
  | .error (.defect d) w => .error (.defect d) w
  | .ok _ w => if w.initialized then (some <$> Module.assemble options).run w else .ok none w

/-- The outcome of a document that was not exported as it is. -/
def outcome : EStateM.Result Failure Walk (Option Module) → Except Failure Compilation × Channel
  | .ok module w => (.ok ⟨module, w.channel.reports, false⟩, w.channel)
  | .error failure w => (.error failure, w.channel)

/-- Compiles a document.  The channel has the reports and the trace, also if the compilation
fails. -/
def compile (options : Options) (content : Text) : Except Failure Compilation × Channel :=
  let start := startWalk options content
  if isRaw content then
    let channel := start.channel.log 2 "Document has an XML declaration, exporting it verbatim"
    match Module.ofRawText content with
    | .ok module => (.ok ⟨some module, [], true⟩, channel)
    | .error fault => (.error (.defect (.unprintable fault)), channel)
  else
    outcome (conclude options ((walk options content).run start))

end Document

end ViewMarkup
