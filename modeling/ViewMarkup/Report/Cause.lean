import ViewMarkup.Binding.Fault
import ViewMarkup.Tag.Fault
import ViewMarkup.Xml.Fault

/-!
# Causes of errors

Everything that can be wrong with a document, and the kind under which it is reported.
-/

namespace ViewMarkup

/-- The kinds of errors. -/
inductive ErrorKind where
  | general
  | structural
  | bindingSyntax
  | bindingSemantic
  | resource
  | options
  deriving DecidableEq

/-- What an error is about. -/
inductive Cause where
  | tag (fault : TagFault)
  | malformed (fault : XmlFault)
  | binding (fault : BindingFault)
  /-- An error stated from outside. -/
  | stated (kind : ErrorKind) (message : Text)
  deriving DecidableEq

namespace Cause

def kind : Cause → ErrorKind
  | tag _ | malformed _ => .structural
  | binding fault => if fault.isSemantic then .bindingSemantic else .bindingSyntax
  | stated kind _ => kind

def message : Cause → Text
  | tag fault => fault.message
  | malformed fault => "Malformed XML: " ++ fault.message
  | binding fault => fault.message
  | stated _ message => message

end Cause

end ViewMarkup
