import ViewMarkup.Script.Operator

/-!
# Symbols and reserved words

The marks that are not words, and the words that have a meaning of their own.  `Symbol.marks` and
`Symbol.operators` list the symbols in the order in which they are tried against a text: a longer
spelling comes before every shorter one that it starts with.
-/

namespace ViewMarkup.Script

/-- Brackets, separators and operator marks. -/
inductive Symbol where
  | ellipsis | optionalDot | arrow
  | shiftRightZeroSet | shiftRightZero | strictEq | strictNe | powSet | pow | coalesceSet | coalesce
  | andSet | and | orSet | or | shiftLeftSet | shiftLeft | shiftRightSet | shiftRight
  | subSet | addSet | mulSet | divSet | remSet | bitAndSet | bitOrSet | bitXorSet
  | eq | ne | le | ge | increment | decrement
  | minus | plus | star | slash | percent | less | greater | ampersand | bar | caret
  | exclamation | tilde | question | colon | equals
  | braceOpen | braceClose | parenOpen | parenClose | bracketOpen | bracketClose
  | comma | semicolon | dot
  deriving DecidableEq

namespace Symbol

def spelling : Symbol → Text
  | ellipsis => "..."
  | optionalDot => "?."
  | arrow => "=>"
  | shiftRightZeroSet => ">>>="
  | shiftRightZero => ">>>"
  | strictEq => "==="
  | strictNe => "!=="
  | powSet => "**="
  | pow => "**"
  | coalesceSet => "??="
  | coalesce => "??"
  | andSet => "&&="
  | and => "&&"
  | orSet => "||="
  | or => "||"
  | shiftLeftSet => "<<="
  | shiftLeft => "<<"
  | shiftRightSet => ">>="
  | shiftRight => ">>"
  | subSet => "-="
  | addSet => "+="
  | mulSet => "*="
  | divSet => "/="
  | remSet => "%="
  | bitAndSet => "&="
  | bitOrSet => "|="
  | bitXorSet => "^="
  | eq => "=="
  | ne => "!="
  | le => "<="
  | ge => ">="
  | increment => "++"
  | decrement => "--"
  | minus => "-"
  | plus => "+"
  | star => "*"
  | slash => "/"
  | percent => "%"
  | less => "<"
  | greater => ">"
  | ampersand => "&"
  | bar => "|"
  | caret => "^"
  | exclamation => "!"
  | tilde => "~"
  | question => "?"
  | colon => ":"
  | equals => "="
  | braceOpen => "\x7b"
  | braceClose => "\x7d"
  | parenOpen => "("
  | parenClose => ")"
  | bracketOpen => "["
  | bracketClose => "]"
  | comma => ","
  | semicolon => ";"
  | dot => "."

/-- The symbols that are punctuation although they are spelled with operator characters. -/
def marks : List Symbol :=
  [ellipsis, optionalDot, arrow]

/-- The operator symbols. -/
def operators : List Symbol :=
  [shiftRightZeroSet, shiftRightZero, strictEq, strictNe, powSet, pow, coalesceSet, coalesce,
   andSet, and, orSet, or, shiftLeftSet, shiftLeft, shiftRightSet, shiftRight,
   subSet, addSet, mulSet, divSet, remSet, bitAndSet, bitOrSet, bitXorSet,
   eq, ne, le, ge, increment, decrement,
   minus, plus, star, slash, percent, less, greater, ampersand, bar, caret,
   exclamation, tilde, question, colon, equals]

/-- Brackets and separators. -/
def brackets : List Symbol :=
  [braceOpen, braceClose, parenOpen, parenClose, bracketOpen, bracketClose, comma, semicolon, dot]

/-- Operator marks, as opposed to punctuation. -/
def isOperator (s : Symbol) : Bool :=
  operators.contains s

/-- The symbol as an operator between two operands. -/
def binary? : Symbol → Option BinaryOp
  | coalesce => some .coalesce
  | or => some .or
  | and => some .and
  | bar => some .bitOr
  | caret => some .bitXor
  | ampersand => some .bitAnd
  | eq => some .eq
  | ne => some .ne
  | strictEq => some .strictEq
  | strictNe => some .strictNe
  | less => some .lt
  | greater => some .gt
  | le => some .le
  | ge => some .ge
  | shiftLeft => some .shiftLeft
  | shiftRight => some .shiftRight
  | shiftRightZero => some .shiftRightZero
  | plus => some .add
  | minus => some .sub
  | star => some .mul
  | slash => some .div
  | percent => some .rem
  | pow => some .pow
  | _ => none

/-- The symbol as an operator before one operand. -/
def unary? : Symbol → Option UnaryOp
  | exclamation => some .not
  | tilde => some .bitNot
  | plus => some .plus
  | minus => some .minus
  | _ => none

/-- The symbol as a step operator. -/
def update? : Symbol → Option UpdateOp
  | increment => some .increment
  | decrement => some .decrement
  | _ => none

/-- The symbol as an operator that stores a value. -/
def assign? : Symbol → Option AssignOp
  | equals => some .set
  | addSet => some .add
  | subSet => some .sub
  | mulSet => some .mul
  | divSet => some .div
  | remSet => some .rem
  | powSet => some .pow
  | shiftLeftSet => some .shiftLeft
  | shiftRightSet => some .shiftRight
  | shiftRightZeroSet => some .shiftRightZero
  | bitAndSet => some .bitAnd
  | bitOrSet => some .bitOr
  | bitXorSet => some .bitXor
  | andSet => some .and
  | orSet => some .or
  | coalesceSet => some .coalesce
  | _ => none

end Symbol

/-- Words that stand for a fixed value. -/
inductive Constant where
  | true | false | null
  deriving DecidableEq

namespace Constant

def spelling : Constant → Text
  | true => "true"
  | false => "false"
  | null => "null"

/-- The constant that a word spells. -/
def ofText? (word : Text) : Option Constant :=
  [true, false, null].find? fun c => c.spelling = word

end Constant

/-- Reserved words. -/
inductive Keyword where
  | new | typeof | void | delete | in | instanceof | this
  | var | let | const | if | else | for | while | do | return
  | function | classWord | switch | case | default | break | continue
  | throw | try | catch | finally | import | export | debugger
  | with | super | extends | yield
  deriving DecidableEq

namespace Keyword

def spelling : Keyword → Text
  | .new => "new"
  | .typeof => "typeof"
  | .void => "void"
  | .delete => "delete"
  | .in => "in"
  | .instanceof => "instanceof"
  | .this => "this"
  | .var => "var"
  | .let => "let"
  | .const => "const"
  | .if => "if"
  | .else => "else"
  | .for => "for"
  | .while => "while"
  | .do => "do"
  | .return => "return"
  | .function => "function"
  | .classWord => "class"
  | .switch => "switch"
  | .case => "case"
  | .default => "default"
  | .break => "break"
  | .continue => "continue"
  | .throw => "throw"
  | .try => "try"
  | .catch => "catch"
  | .finally => "finally"
  | .import => "import"
  | .export => "export"
  | .debugger => "debugger"
  | .with => "with"
  | .super => "super"
  | .extends => "extends"
  | .yield => "yield"

def all : List Keyword :=
  [.new, .typeof, .void, .delete, .in, .instanceof, .this, .var, .let, .const, .if, .else, .for,
   .while, .do, .return, .function, .classWord, .switch, .case, .default, .break, .continue, .throw,
   .try, .catch, .finally, .import, .export, .debugger, .with, .super, .extends, .yield]

/-- The keyword that a word spells. -/
def ofText? (word : Text) : Option Keyword :=
  all.find? fun k => k.spelling = word

/-- The keyword as an operator before one operand. -/
def unary? : Keyword → Option UnaryOp
  | .typeof => some .typeOf
  | .void => some .void
  | .delete => some .delete
  | _ => none

/-- The keyword as an operator between two operands. -/
def binary? : Keyword → Option BinaryOp
  | .in => some .isIn
  | .instanceof => some .instanceOf
  | _ => none

/-- The keywords that open a statement which is not an expression. -/
def opensStatement : Keyword → Bool
  | .var | .let | .const | .if | .for | .while | .do | .return | .function | .classWord | .switch
  | .break | .continue | .throw | .try | .import | .export | .debugger | .with => true
  | _ => false

end Keyword

end ViewMarkup.Script
