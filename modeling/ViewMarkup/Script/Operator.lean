import ViewMarkup.Text.CodePoint

/-!
# Operators of the expression language

The operators by what they do, each with its spelling.  A tree that is handed in from outside may
carry an operator that the language does not have; it is kept as `other` with the spelling it
came with.  Binary operators have a binding strength, on which both reading and printing rely:
the tighter an operator binds, the greater its strength.
-/

namespace ViewMarkup.Script

/-- Operators between two operands. -/
inductive BinaryOp where
  | coalesce | or | and
  | bitOr | bitXor | bitAnd
  | eq | ne | strictEq | strictNe
  | lt | gt | le | ge | instanceOf | isIn
  | shiftLeft | shiftRight | shiftRightZero
  | add | sub
  | mul | div | rem
  | pow
  | other (spelling : Text)
  deriving DecidableEq

namespace BinaryOp

def spelling : BinaryOp → Text
  | coalesce => "??"
  | or => "||"
  | and => "&&"
  | bitOr => "|"
  | bitXor => "^"
  | bitAnd => "&"
  | eq => "=="
  | ne => "!="
  | strictEq => "==="
  | strictNe => "!=="
  | lt => "<"
  | gt => ">"
  | le => "<="
  | ge => ">="
  | instanceOf => "instanceof"
  | isIn => "in"
  | shiftLeft => "<<"
  | shiftRight => ">>"
  | shiftRightZero => ">>>"
  | add => "+"
  | sub => "-"
  | mul => "*"
  | div => "/"
  | rem => "%"
  | pow => "**"
  | other s => s

/-- The operators of the language, from the weakest to the strongest. -/
def all : List BinaryOp :=
  [coalesce, or, and, bitOr, bitXor, bitAnd, eq, ne, strictEq, strictNe, lt, gt, le, ge,
   instanceOf, isIn, shiftLeft, shiftRight, shiftRightZero, add, sub, mul, div, rem, pow]

/-- The operator with a given spelling. -/
def ofText (s : Text) : BinaryOp :=
  (all.find? fun op => op.spelling = s).getD (other s)

/-- How tightly an operator binds; unknown operators have no strength. -/
def strength? : BinaryOp → Option Nat
  | coalesce | or => some 1
  | and => some 2
  | bitOr => some 3
  | bitXor => some 4
  | bitAnd => some 5
  | eq | ne | strictEq | strictNe => some 6
  | lt | gt | le | ge | instanceOf | isIn => some 7
  | shiftLeft | shiftRight | shiftRightZero => some 8
  | add | sub => some 9
  | mul | div | rem => some 10
  | pow => some 11
  | other _ => none

/-- The operators that may leave their right operand unevaluated. -/
def isLogical : BinaryOp → Bool
  | coalesce | or | and => true
  | _ => false

end BinaryOp

/-- Operators before one operand. -/
inductive UnaryOp where
  | not | bitNot | plus | minus | typeOf | void | delete
  | other (spelling : Text)
  deriving DecidableEq

namespace UnaryOp

def spelling : UnaryOp → Text
  | not => "!"
  | bitNot => "~"
  | plus => "+"
  | minus => "-"
  | typeOf => "typeof"
  | void => "void"
  | delete => "delete"
  | other s => s

/-- The operators of the language. -/
def all : List UnaryOp :=
  [not, bitNot, plus, minus, typeOf, void, delete]

/-- The operator with a given spelling. -/
def ofText (s : Text) : UnaryOp :=
  (all.find? fun op => op.spelling = s).getD (other s)

end UnaryOp

/-- Operators that step a variable up or down. -/
inductive UpdateOp where
  | increment | decrement
  | other (spelling : Text)
  deriving DecidableEq

namespace UpdateOp

def spelling : UpdateOp → Text
  | increment => "++"
  | decrement => "--"
  | other s => s

/-- The operators of the language. -/
def all : List UpdateOp :=
  [increment, decrement]

/-- The operator with a given spelling. -/
def ofText (s : Text) : UpdateOp :=
  (all.find? fun op => op.spelling = s).getD (other s)

end UpdateOp

/-- Operators that store a value. -/
inductive AssignOp where
  | set
  | add | sub | mul | div | rem | pow
  | shiftLeft | shiftRight | shiftRightZero
  | bitAnd | bitOr | bitXor
  | and | or | coalesce
  | other (spelling : Text)
  deriving DecidableEq

namespace AssignOp

def spelling : AssignOp → Text
  | set => "="
  | add => "+="
  | sub => "-="
  | mul => "*="
  | div => "/="
  | rem => "%="
  | pow => "**="
  | shiftLeft => "<<="
  | shiftRight => ">>="
  | shiftRightZero => ">>>="
  | bitAnd => "&="
  | bitOr => "|="
  | bitXor => "^="
  | and => "&&="
  | or => "||="
  | coalesce => "??="
  | other s => s

/-- The operators of the language. -/
def all : List AssignOp :=
  [set, add, sub, mul, div, rem, pow, shiftLeft, shiftRight, shiftRightZero, bitAnd, bitOr, bitXor,
   and, or, coalesce]

/-- The operator with a given spelling. -/
def ofText (s : Text) : AssignOp :=
  (all.find? fun op => op.spelling = s).getD (other s)

end AssignOp

end ViewMarkup.Script
