import ViewMarkup.Number.Basic
import ViewMarkup.Script.Operator
import ViewMarkup.Text.Word

/-!
# Syntax trees

One type of nodes serves the expressions of bindings and the modules that are generated from them.
A node does not promise that its children are of a kind that can stand in their place: trees may
come from outside, and printing reports a misplaced child.
-/

namespace ViewMarkup.Script

/-- A node of a syntax tree. -/
inductive Node where
  | identifier (name : Text)
  | string (value : Text)
  | number (value : Number) (raw : Option Text)
  | boolean (value : Bool)
  | null
  | this
  /-- A piece of the text of a template literal, as written and as meant. -/
  | templateElement (raw cooked : Text) (tail : Bool)
  | template (quasis expressions : List Node)
  | spread (argument : Node)
  | array (elements : List Node)
  /-- An element left out of an array. -/
  | hole
  | property (key value : Node) (computed shorthand : Bool)
  | object (properties : List Node)
  | member (object property : Node) (computed optional : Bool)
  | call (callee : Node) (arguments : List Node) (optional : Bool)
  | new (callee : Node) (arguments : List Node)
  | conditional (test consequent alternate : Node)
  | binary (op : BinaryOp) (left right : Node)
  | logical (op : BinaryOp) (left right : Node)
  | unary (op : UnaryOp) (argument : Node)
  /-- A step up or down; `leading` says that the operator stands before the operand. -/
  | update (op : UpdateOp) (argument : Node) (leading : Bool)
  | assignment (op : AssignOp) (left right : Node)
  | sequence (expressions : List Node)
  | arrow (params : List Node) (body : Node)
  | assignmentPattern (left right : Node)
  | objectPattern (properties : List Node)
  | expressionStatement (expression : Node)
  | emptyStatement
  | declarator (id : Node) (init : Option Node)
  | declaration (kind : Text) (declarators : List Node)
  | block (body : List Node)
  | ifStatement (test consequent : Node) (alternate : Option Node)
  | returnStatement (argument : Option Node)
  | tryStatement (block finalizer : Node)
  | function (id : Node) (params : List Node) (body : Node)
  | method (key : Node) (params : List Node) (body : Node)
  | classDeclaration (id : Node) (body : List Node)
  | exportDefault (declaration : Node)
  | program (body : List Node)
  deriving Inhabited

namespace Node

/-- The name of the kind of a node. -/
def kindName : Node → Text
  | identifier .. => "Identifier"
  | string .. => "StringLiteral"
  | number .. => "NumericLiteral"
  | boolean .. => "BooleanLiteral"
  | null => "NullLiteral"
  | this => "ThisExpression"
  | templateElement .. => "TemplateElement"
  | template .. => "TemplateLiteral"
  | spread .. => "SpreadElement"
  | array .. => "ArrayExpression"
  | hole => "Hole"
  | property .. => "ObjectProperty"
  | object .. => "ObjectExpression"
  | member .. => "MemberExpression"
  | call .. => "CallExpression"
  | new .. => "NewExpression"
  | conditional .. => "ConditionalExpression"
  | binary .. => "BinaryExpression"
  | logical .. => "LogicalExpression"
  | unary .. => "UnaryExpression"
  | update .. => "UpdateExpression"
  | assignment .. => "AssignmentExpression"
  | sequence .. => "SequenceExpression"
  | arrow .. => "ArrowFunctionExpression"
  | assignmentPattern .. => "AssignmentPattern"
  | objectPattern .. => "ObjectPattern"
  | expressionStatement .. => "ExpressionStatement"
  | emptyStatement => "EmptyStatement"
  | declarator .. => "VariableDeclarator"
  | declaration .. => "VariableDeclaration"
  | block .. => "BlockStatement"
  | ifStatement .. => "IfStatement"
  | returnStatement .. => "ReturnStatement"
  | tryStatement .. => "TryStatement"
  | function .. => "FunctionDeclaration"
  | method .. => "ClassMethod"
  | classDeclaration .. => "ClassDeclaration"
  | exportDefault .. => "ExportDefaultDeclaration"
  | program .. => "Program"

/-- The kinds that are statements; a whole program is not one. -/
def isStatement : Node → Bool
  | expressionStatement .. | declaration .. | block .. | ifStatement .. | returnStatement ..
  | tryStatement .. | function .. | classDeclaration .. | exportDefault .. | emptyStatement => true
  | _ => false

/-- The access to a named part: `object.name`, or `object['name']` if the name cannot be written
bare.  An optional access uses `?.`. -/
def accessNamed (object : Node) (name : Text) (optional : Bool) : Node :=
  if name.isIdentifier then member object (identifier name) false optional
  else member object (string name) true optional

/-- The plain access to a named part. -/
def memberNamed (object : Node) (name : Text) : Node :=
  accessNamed object name false

/-- The call `callee(arguments)`. -/
def callOf (callee : Node) (arguments : List Node) : Node :=
  call callee arguments false

/-- The statement `target = value;`. -/
def assign (target value : Node) : Node :=
  expressionStatement (assignment .set target value)

/-- The statement `kind name = init;`. -/
def declare (kind name : Text) (init : Node) : Node :=
  declaration kind [declarator (identifier name) (some init)]

/-- The statement `let name = init;`. -/
def letStatement (name : Text) (init : Node) : Node :=
  declare "let" name init

/-- The expression `require('module')`. -/
def require (module : Text) : Node :=
  callOf (identifier "require") [string module]

end Node

/-- A value that a literal can stand for. -/
inductive Scalar where
  | null
  | boolean (value : Bool)
  | number (value : Number)
  | string (value : Text)
  deriving DecidableEq

/-- The literal for a value. -/
def Scalar.literal : Scalar → Node
  | null => .null
  | boolean value => .boolean value
  | number value => .number value none
  | string value => .string value

end ViewMarkup.Script
