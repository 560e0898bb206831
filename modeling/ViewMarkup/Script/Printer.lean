import ViewMarkup.Script.Literal
import ViewMarkup.Script.Node

/-!
# Printing syntax trees

A tree is printed with two spaces of indentation for each block, single quotes, semicolons, and
parentheses only where the binding strength of an operator asks for them.

* `print` writes a program, a statement or an expression.
* A node that stands where its kind cannot is reported as a `PrintFault`.
-/

namespace ViewMarkup.Script

/-- Why a tree cannot be printed. -/
inductive PrintFault where
  | expressionKind (kind : Text)
  | statementKind (kind : Text)
  | unknownOperator (spelling : Text)
  /-- A child lacks the part that its place needs. -/
  | missingPart
  /-- A child has the part that its place needs, but of another type. -/
  | wrongPart
  deriving DecidableEq

namespace PrintFault

def message : PrintFault → Text
  | expressionKind kind => "Cannot print expression node " ++ kind
  | statementKind kind => "Cannot print statement node " ++ kind
  | unknownOperator spelling => "Unknown operator " ++ spelling
  | missingPart => "A node lacks a part"
  | wrongPart => "A part of a node is of another type"

end PrintFault

namespace Printer

/-- How tightly an expression binds.  Binary operators lie between conditional expressions and
unary ones. -/
def strength : Node → Nat
  | .sequence .. => 1
  | .assignment .. | .arrow .. => 2
  | .conditional .. => 3
  | .binary op .. | .logical op .. => op.strength?.getD 0 + 3
  | .unary .. => 15
  | .update _ _ leading => if leading then 15 else 16
  | .call .. | .member .. | .new .. => 18
  | _ => 20

/-- The text of an expression, in parentheses if the expression binds weaker than asked. -/
def guarded (least : Nat) (node : Node) (text : Text) : Text :=
  if strength node < least then text.parenthesized else text

/-- The indentation of a line inside so many blocks. -/
def indentation (depth : Nat) : Text :=
  (List.replicate depth (Text.ofString "  ")).flatten

/-- The name of an identifier; no other node has one. -/
def nameOf : Node → Except PrintFault Text
  | .identifier name => .ok name
  | _ => .error .missingPart

/-- The text of a piece of a template literal. -/
def rawOf : Node → Except PrintFault Text
  | .templateElement raw _ _ => .ok raw
  | .number _ (some raw) => .ok raw
  | .number _ none => .error .wrongPart
  | _ => .error .missingPart

/-- Whether an expression would be taken for something else at the start of a statement. -/
def opensLikeStatement (text : Text) : Bool :=
  text.startsWith "\x7b" || text.startsWith "function" || text.startsWith "class" ||
    text.startsWith "let ["

/-- Whether an operator needs a space before its operand: one made of letters, or a sign that would
merge with the start of the operand. -/
def needsSpace (op argument : Text) : Bool :=
  (!op.isEmpty && op.all CodePoint.isLetter) ||
    ((op = Text.ofString "+-" || op = Text.ofString "+" || op = Text.ofString "-" || op.isEmpty) &&
      argument.startsWith op)

/-- Whether the operand of a logical operator is one that does not mix with it. -/
def clashes (parent child : Node) : Bool :=
  match parent, child with
  | .logical outer _ _, .logical inner _ _ => (outer == .coalesce) != (inner == .coalesce)
  | _, _ => false

/-- The text of an operand of a binary operator. -/
def operand (parent child : Node) (least : Nat) (text : Text) : Text :=
  if clashes parent child then text.parenthesized else guarded least child text

/-- Two operands and the operator between them.  Operators group to the left, except powers, whose
left operand must not be unary. -/
def infixText (parent : Node) (op : BinaryOp) (strength : Nat) (left right : Node)
    (leftText rightText : Text) : Text :=
  let (leastLeft, leastRight) :=
    if op = .pow then (16, strength) else (strength, strength + 1)
  operand parent left leastLeft leftText ++ " " ++ op.spelling ++ " " ++
    operand parent right leastRight rightText

/-- Whether the callee of `new` can be written bare: a name or `this` with plain accesses. -/
def isPlainCallee : Node → Bool
  | .member object _ _ optional => !optional && isPlainCallee object
  | .identifier _ => true
  | .this => true
  | _ => false

/-- A list of properties between braces. -/
def braced (items : List Text) : Text :=
  if items.isEmpty then "\x7b\x7d" else "\x7b " ++ Text.join ", " items ++ " \x7d"

/-- The lines of a block between braces, where the block stands at a given depth. -/
def blockText (depth : Nat) (lines : List Text) : Text :=
  if lines.isEmpty then "\x7b\x7d"
  else
    "\x7b\n" ++ Text.join "\n" (lines.map fun line => indentation (depth + 1) ++ line) ++ "\n" ++
      indentation depth ++ "\x7d"

/-- Whether an expression or a pattern is wanted. -/
inductive Role where
  | plain | pattern
  deriving DecidableEq

/-- The text of a parameter or of the target of a declaration. -/
def guardedPattern (node : Node) (text : Text) : Text :=
  match node with
  | .assignmentPattern .. | .objectPattern .. => text
  | node => guarded 18 node text

/-- Whether a node is a pattern with a default value. -/
def isDefault : Node → Bool
  | .assignmentPattern .. => true
  | _ => false

def isNumber : Node → Bool
  | .number .. => true
  | _ => false

/-- The expression body of an arrow function, where an object gets parentheses. -/
def arrowBody (body : Node) (text : Text) : Text :=
  match body with
  | .object .. => text.parenthesized
  | _ => text

def isIf : Node → Bool
  | .ifStatement .. => true
  | _ => false

mutual

/-- A statement inside so many blocks, without the indentation of its first line. -/
def statement (depth : Nat) : Node → Except PrintFault Text
  | .expressionStatement e => do
    let text ← expression depth .plain e
    return (if opensLikeStatement text then text.parenthesized else text) ++ ";"
  | .declaration kind ds => do
    let ds ← declarators depth ds
    return kind ++ " " ++ Text.join ", " ds ++ ";"
  | .block body => do
    let lines ← statements (depth + 1) body
    return blockText depth lines
  | .ifStatement test consequent alternate => do
    let test ← expression depth .plain test
    let consequent ← blockOf depth consequent
    let alternate ← elseBranch depth alternate
    return "if (" ++ test ++ ") " ++ consequent ++ alternate
  | .returnStatement argument => do
    let argument ← optional depth 1 " " argument
    return "return" ++ argument ++ ";"
  | .tryStatement body finalizer => do
    let body ← blockOf depth body
    let finalizer ← blockOf depth finalizer
    return "try " ++ body ++ " finally " ++ finalizer
  | .function id params body => do
    let name ← nameOf id
    let params ← patterns depth params
    let body ← blockOf depth body
    return "function " ++ name ++ "(" ++ Text.join ", " params ++ ") " ++ body
  | .classDeclaration id body => do
    let lines ← methods (depth + 1) body
    let name ← nameOf id
    return "class " ++ name ++ " " ++ blockText depth lines
  | .exportDefault declaration =>
    if declaration.isStatement then do
      let text ← statement depth declaration
      return "export default " ++ text
    else do
      let text ← expression depth .plain declaration
      return "export default " ++ guarded 2 declaration text ++ ";"
  | .emptyStatement => .ok ";"
  | node => .error (.statementKind node.kindName)

/-- The statements of a block, one by one. -/
def statements (depth : Nat) : List Node → Except PrintFault (List Text)
  | [] => .ok []
  | node :: rest => do
    let line ← statement depth node
    let lines ← statements depth rest
    return line :: lines

/-- The statements that a node holds, as a block. -/
def blockOf (depth : Nat) : Node → Except PrintFault Text
  | .block body | .program body | .classDeclaration _ body => do
    let lines ← statements (depth + 1) body
    return blockText depth lines
  | .arrow .. | .function .. | .method .. => .error .wrongPart
  | _ => .error .missingPart

/-- What follows the first branch of a conditional statement. -/
def elseBranch (depth : Nat) : Option Node → Except PrintFault Text
  | none => .ok []
  | some node =>
    if isIf node then do
      let text ← statement depth node
      return " else " ++ text
    else do
      let text ← blockOf depth node
      return " else " ++ text

/-- An expression that may be missing, after a separator. -/
def optional (depth least : Nat) (separator : Text) : Option Node → Except PrintFault Text
  | none => .ok []
  | some node => do
    let text ← expression depth .plain node
    return separator ++ guarded least node text

/-- The variables of a declaration. -/
def declarators (depth : Nat) : List Node → Except PrintFault (List Text)
  | [] => .ok []
  | .declarator id init :: rest => do
    let name ← expression depth .pattern id
    let value ← optional depth 2 " = " init
    let texts ← declarators depth rest
    return (guardedPattern id name ++ value) :: texts
  | _ :: _ => .error .missingPart

/-- The methods of a class. -/
def methods (depth : Nat) : List Node → Except PrintFault (List Text)
  | [] => .ok []
  | .method key params body :: rest => do
    let name ← nameOf key
    let params ← patterns depth params
    let body ← blockOf depth body
    let texts ← methods depth rest
    return (name ++ "(" ++ Text.join ", " params ++ ") " ++ body) :: texts
  | _ :: _ => .error .missingPart

/-- A list of parameters. -/
def patterns (depth : Nat) : List Node → Except PrintFault (List Text)
  | [] => .ok []
  | node :: rest => do
    let text ← expression depth .pattern node
    let texts ← patterns depth rest
    return guardedPattern node text :: texts

/-- The properties of an object. -/
def properties (depth : Nat) : List Node → Except PrintFault (List Text)
  | [] => .ok []
  | node :: rest => do
    let text ← property depth node
    let texts ← properties depth rest
    return text :: texts

/-- One property of an object. -/
def property (depth : Nat) : Node → Except PrintFault Text
  | .spread argument => do
    let text ← expression depth .plain argument
    return "..." ++ guarded 2 argument text
  | .property key value computed shorthand =>
    match shorthand, value with
    | true, .identifier name => .ok name
    | _, value => do
      let keyText ← expression depth .plain key
      let valueText ← expression depth (if isDefault value then .pattern else .plain) value
      return (if computed then "[" ++ guarded 2 key keyText ++ "]" else keyText) ++ ": " ++
        guarded 2 value valueText
  | _ => .error .missingPart

/-- A list of expressions, each binding at least as tightly as an assignment. -/
def expressions (depth : Nat) : List Node → Except PrintFault (List Text)
  | [] => .ok []
  | node :: rest => do
    let text ← expression depth .plain node
    let texts ← expressions depth rest
    return guarded 2 node text :: texts

/-- The elements of an array. -/
def elements (depth : Nat) : List Node → Except PrintFault (List Text)
  | [] => .ok []
  | .hole :: rest => do
    let texts ← elements depth rest
    return [] :: (if rest.isEmpty then [[]] else texts)
  | node :: rest => do
    let text ← expression depth .plain node
    let texts ← elements depth rest
    return guarded 2 node text :: texts

/-- The inside of a template literal: pieces of text with the substitutions between them. -/
def templateParts (depth : Nat) (quasis : List Node) : List Node → Except PrintFault Text
  | [] => do
    let raws ← quasis.mapM rawOf
    return raws.flatten
  | e :: es =>
    match quasis with
    | [] => .ok []
    | quasi :: quasis => do
      let raw ← rawOf quasi
      let text ← expression depth .plain e
      let rest ← templateParts depth quasis es
      return raw ++ "$\x7b" ++ text ++ "\x7d" ++ rest

/-- An expression without parentheses around it.  Where a pattern is wanted, the kinds that only a
pattern can have are printed too. -/
def expression (depth : Nat) (role : Role) : Node → Except PrintFault Text
  | .identifier name => .ok name
  | .string value => .ok (quote value)
  | .number value raw => .ok (raw.getD value.write)
  | .boolean value => .ok (if value then "true" else "false")
  | .null => .ok "null"
  | .this => .ok "this"
  | .template quasis es => do
    let text ← templateParts depth quasis es
    return "`" ++ text ++ "`"
  | .array items => do
    let texts ← elements depth items
    return "[" ++ Text.join ", " texts ++ "]"
  | .object ps => do
    let texts ← properties depth ps
    return braced texts
  | .spread argument => do
    let text ← expression depth .plain argument
    return "..." ++ guarded 2 argument text
  | .member object key computed optional => do
    let objectText ← expression depth .plain object
    let objectText := guarded 18 object objectText
    let objectText :=
      if isNumber object && !computed && !optional then objectText.parenthesized else objectText
    if computed then
      let keyText ← expression depth .plain key
      return objectText ++ (if optional then "?." else "") ++ "[" ++ keyText ++ "]"
    else
      let name ← nameOf key
      return objectText ++ (if optional then "?." else ".") ++ name
  | .call callee args optional => do
    let text ← expression depth .plain callee
    let texts ← expressions depth args
    return guarded 18 callee text ++ (if optional then "?." else "") ++ "(" ++
      Text.join ", " texts ++ ")"
  | .new callee args => do
    let text ← expression depth .plain callee
    let text := guarded 18 callee text
    let texts ← expressions depth args
    return "new " ++ (if isPlainCallee callee then text else text.parenthesized) ++ "(" ++
      Text.join ", " texts ++ ")"
  | .conditional test consequent alternate => do
    let testText ← expression depth .plain test
    let consequentText ← expression depth .plain consequent
    let alternateText ← expression depth .plain alternate
    return guarded 4 test testText ++ " ? " ++ guarded 2 consequent consequentText ++ " : " ++
      guarded 2 alternate alternateText
  | .binary op left right =>
    match op.strength? with
    | none => .error (.unknownOperator op.spelling)
    | some strength => do
      let leftText ← expression depth .plain left
      let rightText ← expression depth .plain right
      return infixText (.binary op left right) op (strength + 3) left right leftText rightText
  | .logical op left right =>
    match op.strength? with
    | none => .error (.unknownOperator op.spelling)
    | some strength => do
      let leftText ← expression depth .plain left
      let rightText ← expression depth .plain right
      return infixText (.logical op left right) op (strength + 3) left right leftText rightText
  | .unary op argument => do
    let text ← expression depth .plain argument
    let text := guarded 15 argument text
    return op.spelling ++ (if needsSpace op.spelling text then " " else "") ++ text
  | .update op argument leading => do
    let text ← expression depth .plain argument
    if leading then return op.spelling ++ guarded 15 argument text
    else return guarded 17 argument text ++ op.spelling
  | .assignment op left right => do
    let leftText ← expression depth .plain left
    let rightText ← expression depth .plain right
    return guarded 17 left leftText ++ " " ++ op.spelling ++ " " ++ guarded 2 right rightText
  | .sequence es => do
    let texts ← expressions depth es
    return Text.join ", " texts
  | .arrow params body => do
    let head ← (match params with
      | [.identifier name] => .ok name
      | params => do
        let texts ← patterns depth params
        return (Text.join ", " texts).parenthesized)
    let tail ← (match body with
      | .block stmts => do
        let lines ← statements (depth + 1) stmts
        return blockText depth lines
      | body => do
        let text ← expression depth .plain body
        return arrowBody body (guarded 2 body text))
    return head ++ " => " ++ tail
  | .assignmentPattern left right =>
    match role with
    | .pattern => do
      let leftText ← expression depth .pattern left
      let rightText ← expression depth .plain right
      return guardedPattern left leftText ++ " = " ++ guarded 2 right rightText
    | .plain => .error (.expressionKind (Node.assignmentPattern left right).kindName)
  | .objectPattern ps =>
    match role with
    | .pattern => do
      let texts ← properties depth ps
      return braced texts
    | .plain => .error (.expressionKind (Node.objectPattern ps).kindName)
  | node => .error (.expressionKind node.kindName)

end

end Printer

/-- Writes a program, a statement or an expression. -/
def print (node : Node) : Except PrintFault Text :=
  match node with
  | .program body => do
    let lines ← Printer.statements 0 body
    return Text.join "\n" lines ++ "\n"
  | node => if node.isStatement then Printer.statement 0 node else Printer.expression 0 .plain node

end ViewMarkup.Script
