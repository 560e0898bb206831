import ViewMarkup.Script.Fault

/-!
# What can be wrong with a binding

A binding is refused because of how it is written or because of what it refers to.
-/

namespace ViewMarkup

/-- Why the value of an attribute is not a usable binding. -/
inductive BindingFault where
  | expression (fault : Script.SyntaxFault)
  | missing (value : Text)
  | empty (value : Text)
  | notSingle (value : Text)
  | disallowed (value : Text)
  | bareParents (value : Text)
  | converter (value : Text)
  deriving DecidableEq

namespace BindingFault

/-- Whether a fault lies in what the binding refers to, and not in how it is written. -/
def isSemantic : BindingFault → Bool
  | bareParents _ | converter _ => true
  | _ => false

def message : BindingFault → Text
  | expression fault => fault.message
  | missing value => "Cannot retrieve code content from non-binding value: " ++ value
  | empty value => "Empty binding expression: " ++ value
  | notSingle value =>
    "Invalid binding expression. Binding must be a single expression statement: " ++ value
  | disallowed value => "Invalid binding expression: " ++ value
  | bareParents value =>
    "Invalid '$parents' expression reference. No element name has been given to search for: " ++
      value
  | converter value => "Invalid converter expression: " ++ value

end BindingFault

end ViewMarkup
