import ViewMarkup.Script.Literal
import ViewMarkup.Script.Node
import ViewMarkup.Script.Token

/-!
# Reading expressions

A recursive descent over the tokens of a text.  Each function reads one kind of phrase from the
front of a list of tokens and returns what it read together with the remaining tokens and a proof
that they are fewer, so that all of them terminate without a bound from outside.

* `parse` reads a text as a sequence of expression statements.
* Binary operators are grouped by precedence climbing (`binary`, `binaryTail`): an operand extends
  over every operator that binds at least as tightly as asked.
* A line feed between two tokens ends a statement as a semicolon does.
-/

namespace ViewMarkup.Script

open List (length_cons)
/-- What was read, and the tokens after it, which number less than `bound`. -/
structure Parsed (α : Type) (bound : Nat) where
  value : α
  rest : List Token
  shorter : rest.length < bound

/-- An expression, and whether it stood between parentheses. -/
structure Operand where
  node : Node
  parenthesized : Bool

namespace Parser

/-- The fault of a token that cannot stand where it does; `stop` is where the text ends. -/
def unexpected (stop : Nat) (ts : List Token) (hint : Option Hint) : SyntaxFault :=
  match ts with
  | [] => .unexpected none hint stop
  | t :: _ => .unexpected (some t.text) hint t.offset

/-- The tokens after the first, if the first is of the given kind. -/
def pass? (kind : TokenKind) (ts : List Token) : Option (Parsed Unit ts.length) :=
  match ts with
  | [] => none
  | t :: rest => if t.kind = kind then some ⟨(), rest, by simp⟩ else none

/-- Passes one given symbol. -/
def expect (stop : Nat) (s : Symbol) (ts : List Token) :
    Except SyntaxFault (Parsed Unit ts.length) :=
  match pass? (.symbol s) ts with
  | some passed => .ok passed
  | none => .error (unexpected stop ts (some (.expected s.spelling)))

/-- Whether an access or a call anywhere along a chain is optional. -/
def hasOptionalLink : Node → Bool
  | .member object _ _ optional => optional || hasOptionalLink object
  | .call callee _ optional => optional || hasOptionalLink callee
  | _ => false

/-- Whether an expression can be assigned to. -/
def isTarget (e : Node) : Bool :=
  match e with
  | .identifier _ => true
  | .member .. => !hasOptionalLink e
  | _ => false

/-- Whether an operand is a unary expression without parentheses around it. -/
def isBareUnary (e : Operand) : Bool :=
  match e.node with
  | .unary .. => !e.parenthesized
  | _ => false

/-- Whether an operand may stand beside a logical operator: without parentheses, `??` does not mix
with the other two. -/
def mixes (op : BinaryOp) (e : Operand) : Bool :=
  match e.node with
  | .logical inner _ _ => !e.parenthesized && (inner == .coalesce) != (op == .coalesce)
  | _ => false

/-- Joins two operands. -/
def combine (op : BinaryOp) (left right : Operand) : Except SyntaxFault Node :=
  if op.isLogical then
    if mixes op left || mixes op right then .error .mixedCoalesce
    else .ok (.logical op left.node right.node)
  else .ok (.binary op left.node right.node)

/-- A token as an operator between two operands, with its strength. -/
def binaryOperator? (t : Token) : Option (BinaryOp × Nat) :=
  let op? := match t.kind with
    | .symbol s => s.binary?
    | .keyword k => k.binary?
    | _ => none
  op?.bind fun op => op.strength?.map fun strength => (op, strength)

/-- A token as an operator before one operand. -/
def unaryOperator? (t : Token) : Option UnaryOp :=
  match t.kind with
  | .symbol s => s.unary?
  | .keyword k => k.unary?
  | _ => none

/-- A token as a step operator. -/
def updateOperator? (t : Token) : Option UpdateOp :=
  match t.kind with
  | .symbol s => s.update?
  | _ => none

/-- An operator that stores a value, at the front of the tokens. -/
def passAssign? (ts : List Token) : Option (Parsed AssignOp ts.length) :=
  match ts with
  | ⟨.symbol s, _, _, _⟩ :: rest => s.assign?.map fun op => ⟨op, rest, by simp⟩
  | _ => none

/-- A step operator on the same line, at the front of the tokens. -/
def passUpdate? (ts : List Token) : Option (Parsed UpdateOp ts.length) :=
  match ts with
  | [] => none
  | t :: rest =>
    if t.newlineBefore then none
    else (updateOperator? t).map fun op => ⟨op, rest, by simp⟩

/-- Whether the bracket that closes at `depth` is followed by an arrow. -/
def arrowAfterClose : (depth : Nat) → List Token → Bool
  | _, [] => false
  | depth, t :: rest =>
    match t.kind with
    | .symbol .parenOpen | .symbol .bracketOpen | .symbol .braceOpen =>
      arrowAfterClose (depth + 1) rest
    | .symbol .parenClose | .symbol .bracketClose | .symbol .braceClose =>
      if depth = 1 then
        match rest with
        | ⟨.symbol .arrow, _, _, _⟩ :: _ => true
        | _ => false
      else arrowAfterClose (depth - 1) rest
    | _ => arrowAfterClose depth rest

/-- Whether the tokens start with an arrow function. -/
def arrowAhead : List Token → Bool
  | ⟨.name, _, _, _⟩ :: ⟨.symbol .arrow, _, _, _⟩ :: _ => true
  | ⟨.symbol .parenOpen, _, _, _⟩ :: rest => arrowAfterClose 1 rest
  | _ => false

/-- The name after a dot, where reserved words are allowed. -/
def propertyName (stop : Nat) (ts : List Token) : Except SyntaxFault (Parsed Node ts.length) :=
  match ts with
  | ⟨.name, text, _, _⟩ :: rest => .ok ⟨.identifier text, rest, by simp⟩
  | ⟨.keyword _, text, _, _⟩ :: rest => .ok ⟨.identifier text, rest, by simp⟩
  | ⟨.constant _, text, _, _⟩ :: rest => .ok ⟨.identifier text, rest, by simp⟩
  | ts => .error (unexpected stop ts (some .propertyName))

/-- The value between the quotes of a string token. -/
def stringValue (text : Text) : Except SyntaxFault Node :=
  match decodeEscapes (text.drop 1).dropLast with
  | .ok value => .ok (.string value)
  | .error fault => .error (.escape fault)

/-- A piece of the text of a template literal. -/
def templatePiece (raw : Text) (tail : Bool) : Except SyntaxFault Node :=
  match decodeEscapes raw with
  | .ok cooked => .ok (.templateElement raw cooked tail)
  | .error fault => .error (.escape fault)

/-- The key of an object property. -/
structure Key where
  node : Node
  computed : Bool
  /-- The name, if the property may be abbreviated to it. -/
  shorthand : Option Text

/-- Whether a property ends here: at a comma or at the closing brace. -/
def endsProperty : List Token → Bool
  | ⟨.symbol .comma, _, _, _⟩ :: _ => true
  | ⟨.symbol .braceClose, _, _, _⟩ :: _ => true
  | _ => false

/-- The fault of what follows the key of a property in place of a colon. -/
def misplacedAfterKey (stop : Nat) (ts : List Token) : SyntaxFault :=
  match ts with
  | ⟨.symbol .parenOpen, _, offset, _⟩ :: _ => .objectMethod offset
  | ⟨.name, _, offset, _⟩ :: _ => .objectMethod offset
  | ⟨.keyword _, _, offset, _⟩ :: _ => .objectMethod offset
  | ts => unexpected stop ts (some (.expected Symbol.colon.spelling))

variable (stop : Nat)

mutual

/-- An expression, which may be a sequence separated by commas. -/
def expression (ts : List Token) : Except SyntaxFault (Parsed Node ts.length) := do
  let ⟨first, rest, h⟩ ← assignment ts
  let ⟨others, rest', h'⟩ ← sequenceTail rest
  return ⟨if others.isEmpty then first else .sequence (first :: others), rest', by omega⟩
termination_by 16 * ts.length + 9
decreasing_by all_goals omega

/-- The further members of a sequence. -/
def sequenceTail (ts : List Token) :
    Except SyntaxFault (Parsed (List Node) (ts.length + 1)) :=
  match ts with
  | ⟨.symbol .comma, _, _, _⟩ :: more => do
    let ⟨e, rest, h⟩ ← assignment more
    let ⟨es, rest', h'⟩ ← sequenceTail rest
    return ⟨e :: es, rest', by simp only [length_cons]; omega⟩
  | ts => .ok ⟨[], ts, by omega⟩
termination_by 16 * ts.length
decreasing_by all_goals simp only [length_cons]; omega

/-- An arrow function, an assignment, or anything that binds tighter. -/
def assignment (ts : List Token) : Except SyntaxFault (Parsed Node ts.length) := do
  if arrowAhead ts then arrowFunction ts
  else
    let ⟨left, rest, h⟩ ← conditional ts
    match passAssign? rest with
    | none => return ⟨left, rest, h⟩
    | some ⟨op, more, hm⟩ =>
      if isTarget left then
        let ⟨right, rest', h'⟩ ← assignment more
        return ⟨.assignment op left right, rest', by omega⟩
      else .error (unexpected stop rest (some .assignmentTarget))
termination_by 16 * ts.length + 8
decreasing_by all_goals omega

/-- An arrow function. -/
def arrowFunction (ts : List Token) : Except SyntaxFault (Parsed Node ts.length) :=
  match ts with
  | ⟨.name, text, _, _⟩ :: more => do
    let ⟨f, rest, h⟩ ← arrowBody [.identifier text] more
    return ⟨f, rest, by simp only [length_cons]; omega⟩
  | ⟨.symbol .parenOpen, _, _, _⟩ :: more => do
    let ⟨params, rest, h⟩ ← parameters more
    let ⟨f, rest', h'⟩ ← arrowBody params rest
    return ⟨f, rest', by simp only [length_cons]; omega⟩
  | ts => .error (unexpected stop ts (some (.expected Symbol.parenOpen.spelling)))
termination_by 16 * ts.length + 7
decreasing_by all_goals simp only [length_cons]; omega

/-- The parameters of an arrow function, after the opening parenthesis. -/
def parameters (ts : List Token) :
    Except SyntaxFault (Parsed (List Node) ts.length) :=
  match ts with
  | ⟨.symbol .parenClose, _, _, _⟩ :: more => .ok ⟨[], more, by simp⟩
  | ⟨.name, text, _, _⟩ :: ⟨.symbol .equals, _, _, _⟩ :: more => do
    let ⟨value, rest, h⟩ ← assignment more
    let ⟨params, rest', h'⟩ ← moreParameters rest
    return ⟨.assignmentPattern (.identifier text) value :: params, rest',
      by simp only [length_cons]; omega⟩
  | ⟨.name, text, _, _⟩ :: more => do
    let ⟨params, rest', h'⟩ ← moreParameters more
    return ⟨.identifier text :: params, rest', by simp only [length_cons]; omega⟩
  | ts => .error (unexpected stop ts (some .parameterName))
termination_by 16 * ts.length + 2
decreasing_by all_goals simp only [length_cons]; omega

/-- What follows a parameter: the closing parenthesis, or a comma and more parameters. -/
def moreParameters (ts : List Token) :
    Except SyntaxFault (Parsed (List Node) ts.length) :=
  match ts with
  | ⟨.symbol .parenClose, _, _, _⟩ :: more => .ok ⟨[], more, by simp⟩
  | ⟨.symbol .comma, _, _, _⟩ :: more => do
    let ⟨params, rest, h⟩ ← parameters more
    return ⟨params, rest, by simp only [length_cons]; omega⟩
  | ts => .error (unexpected stop ts (some (.expected Symbol.comma.spelling)))
termination_by 16 * ts.length + 1
decreasing_by all_goals simp only [length_cons]; omega

/-- The arrow and the body of an arrow function. -/
def arrowBody (params : List Node) (ts : List Token) :
    Except SyntaxFault (Parsed Node ts.length) :=
  match ts with
  | ⟨.symbol .arrow, _, _, _⟩ :: ⟨.symbol .braceOpen, _, offset, _⟩ :: _ =>
    .error (.arrowBlockBody offset)
  | ⟨.symbol .arrow, _, _, _⟩ :: more => do
    let ⟨body, rest, h⟩ ← assignment more
    return ⟨.arrow params body, rest, by simp only [length_cons]; omega⟩
  | ts => .error (unexpected stop ts (some (.expected Symbol.arrow.spelling)))
termination_by 16 * ts.length
decreasing_by all_goals simp only [length_cons]; omega

/-- A conditional expression, or anything that binds tighter. -/
def conditional (ts : List Token) : Except SyntaxFault (Parsed Node ts.length) := do
  let ⟨test, rest, h⟩ ← binary 1 ts
  match pass? (.symbol .question) rest with
  | none => return ⟨test.node, rest, h⟩
  | some ⟨_, rest₁, h₁⟩ =>
    let ⟨consequent, rest₂, h₂⟩ ← assignment rest₁
    let ⟨_, rest₃, h₃⟩ ← expect stop .colon rest₂
    let ⟨alternate, rest₄, h₄⟩ ← assignment rest₃
    return ⟨.conditional test.node consequent alternate, rest₄, by omega⟩
termination_by 16 * ts.length + 7
decreasing_by all_goals omega

/-- Operands joined by binary operators of at least a given strength. -/
def binary (least : Nat) (ts : List Token) :
    Except SyntaxFault (Parsed Operand ts.length) := do
  let ⟨left, rest, h⟩ ← unary ts
  let ⟨e, rest', h'⟩ ← binaryTail least left rest
  return ⟨e, rest', by omega⟩
termination_by 16 * ts.length + 6
decreasing_by all_goals omega

/-- Extends an operand over the operators after it that are strong enough.  All operators group to
the left, except powers. -/
def binaryTail (least : Nat) (left : Operand) (ts : List Token) :
    Except SyntaxFault (Parsed Operand (ts.length + 1)) :=
  match ts with
  | [] => .ok ⟨left, [], by simp⟩
  | t :: more =>
    match binaryOperator? t with
    | none => .ok ⟨left, t :: more, by simp⟩
    | some (op, strength) =>
      if strength < least then .ok ⟨left, t :: more, by simp⟩
      else if op = .pow && isBareUnary left then .error .unaryBeforePower
      else do
        let ⟨right, rest, h⟩ ← binary (if op = .pow then strength else strength + 1) more
        let node ← combine op left right
        let ⟨e, rest', h'⟩ ← binaryTail least ⟨node, false⟩ rest
        return ⟨e, rest', by simp only [length_cons]; omega⟩
termination_by 16 * ts.length
decreasing_by all_goals simp only [length_cons]; omega

/-- An operand with the operators before and after it. -/
def unary (ts : List Token) : Except SyntaxFault (Parsed Operand ts.length) :=
  match ts with
  | [] => .error (unexpected stop [] none)
  | t :: more =>
    match unaryOperator? t with
    | some op => do
      let ⟨argument, rest, h⟩ ← unary more
      return ⟨⟨.unary op argument.node, false⟩, rest, by simp only [length_cons]; omega⟩
    | none =>
      match updateOperator? t with
      | some op => do
        let ⟨argument, rest, h⟩ ← unary more
        if isTarget argument.node then
          return ⟨⟨.update op argument.node true, false⟩, rest,
            by simp only [length_cons]; omega⟩
        else .error .updateTarget
      | none => do
        let ⟨argument, rest, h⟩ ← leftHandSide (t :: more)
        match passUpdate? rest with
        | none => return ⟨argument, rest, h⟩
        | some ⟨op, rest', h'⟩ =>
          if isTarget argument.node then
            return ⟨⟨.update op argument.node false, false⟩, rest', by omega⟩
          else .error .updateTarget
termination_by 16 * ts.length + 5
decreasing_by all_goals simp only [length_cons]; omega

/-- A primary expression or a `new` expression with its accesses and calls. -/
def leftHandSide (ts : List Token) :
    Except SyntaxFault (Parsed Operand ts.length) := do
  let ⟨head, rest, h⟩ ← headExpression ts
  let ⟨e, rest', h'⟩ ← callTail true head rest
  return ⟨e, rest', by omega⟩
termination_by 16 * ts.length + 4
decreasing_by all_goals omega

/-- A `new` expression or a primary expression. -/
def headExpression (ts : List Token) :
    Except SyntaxFault (Parsed Operand ts.length) :=
  match ts with
  | ⟨.keyword .new, _, _, _⟩ :: more => do
    let ⟨e, rest, h⟩ ← newExpression more
    return ⟨⟨e, false⟩, rest, by simp only [length_cons]; omega⟩
  | ts => primary ts
termination_by 16 * ts.length + 3
decreasing_by all_goals (try simp only [length_cons]); omega

/-- A `new` expression, after the keyword.  The called name may have accesses but no calls. -/
def newExpression (ts : List Token) : Except SyntaxFault (Parsed Node ts.length) :=
  match ts with
  | ⟨.symbol .dot, text, offset, newline⟩ :: more =>
    .error (unexpected stop (⟨.symbol .dot, text, offset, newline⟩ :: more) (some .newTarget))
  | ts => do
    let ⟨head, rest, h⟩ ← headExpression ts
    let ⟨callee, rest', h'⟩ ← callTail false head rest
    match pass? (.symbol .parenOpen) rest' with
    | none => return ⟨.new callee.node [], rest', by omega⟩
    | some ⟨_, more, hm⟩ =>
      let ⟨args, rest'', h''⟩ ← arguments more
      return ⟨.new callee.node args, rest'', by omega⟩
termination_by 16 * ts.length + 4
decreasing_by all_goals omega

/-- The accesses, optional links and calls after an expression. -/
def callTail (allowCalls : Bool) (e : Operand) (ts : List Token) :
    Except SyntaxFault (Parsed Operand (ts.length + 1)) :=
  match ts with
  | ⟨.symbol .dot, _, _, _⟩ :: more => do
    let ⟨name, rest, h⟩ ← propertyName stop more
    let ⟨e', rest', h'⟩ ← callTail allowCalls ⟨.member e.node name false false, false⟩ rest
    return ⟨e', rest', by simp only [length_cons]; omega⟩
  | ⟨.symbol .bracketOpen, _, _, _⟩ :: more => do
    let ⟨key, rest₁, h₁⟩ ← expression more
    let ⟨_, rest₂, h₂⟩ ← expect stop .bracketClose rest₁
    let ⟨e', rest', h'⟩ ← callTail allowCalls ⟨.member e.node key true false, false⟩ rest₂
    return ⟨e', rest', by simp only [length_cons]; omega⟩
  | ⟨.symbol .optionalDot, text, offset, newline⟩ :: more =>
    if allowCalls then do
      let ⟨linked, rest, h⟩ ← optionalLink e more
      let ⟨e', rest', h'⟩ ← callTail allowCalls ⟨linked, false⟩ rest
      return ⟨e', rest', by simp only [length_cons]; omega⟩
    else
      .error (unexpected stop (⟨.symbol .optionalDot, text, offset, newline⟩ :: more)
        (some .optionalInNew))
  | ⟨.symbol .parenOpen, text, offset, newline⟩ :: more =>
    if allowCalls then do
      let ⟨args, rest, h⟩ ← arguments more
      let ⟨e', rest', h'⟩ ← callTail allowCalls ⟨.call e.node args false, false⟩ rest
      return ⟨e', rest', by simp only [length_cons]; omega⟩
    else .ok ⟨e, ⟨.symbol .parenOpen, text, offset, newline⟩ :: more, by simp⟩
  | ⟨.backtick, _, offset, _⟩ :: _ => .error (.taggedTemplate offset)
  | ts => .ok ⟨e, ts, by omega⟩
termination_by 16 * ts.length
decreasing_by all_goals simp only [length_cons]; omega

/-- What follows an optional link: arguments, a key in brackets, or a name. -/
def optionalLink (e : Operand) (ts : List Token) :
    Except SyntaxFault (Parsed Node ts.length) :=
  match ts with
  | ⟨.symbol .parenOpen, _, _, _⟩ :: more => do
    let ⟨args, rest, h⟩ ← arguments more
    return ⟨.call e.node args true, rest, by simp only [length_cons]; omega⟩
  | ⟨.symbol .bracketOpen, _, _, _⟩ :: more => do
    let ⟨key, rest₁, h₁⟩ ← expression more
    let ⟨_, rest₂, h₂⟩ ← expect stop .bracketClose rest₁
    return ⟨.member e.node key true true, rest₂, by simp only [length_cons]; omega⟩
  | ts => do
    let ⟨name, rest, h⟩ ← propertyName stop ts
    return ⟨.member e.node name false true, rest, h⟩
termination_by 16 * ts.length
decreasing_by all_goals simp only [length_cons]; omega

/-- An expression, or one that is spread out after `...`. -/
def spreadOrExpression (ts : List Token) :
    Except SyntaxFault (Parsed Node ts.length) :=
  match ts with
  | ⟨.symbol .ellipsis, _, _, _⟩ :: more => do
    let ⟨e, rest, h⟩ ← assignment more
    return ⟨.spread e, rest, by simp only [length_cons]; omega⟩
  | ts => assignment ts
termination_by 16 * ts.length + 11
decreasing_by all_goals (try simp only [length_cons]); omega

/-- The arguments of a call, after the opening parenthesis. -/
def arguments (ts : List Token) :
    Except SyntaxFault (Parsed (List Node) ts.length) :=
  match ts with
  | ⟨.symbol .parenClose, _, _, _⟩ :: more => .ok ⟨[], more, by simp⟩
  | ts => do
    let ⟨e, rest, h⟩ ← spreadOrExpression ts
    match pass? (.symbol .parenClose) rest with
    | some ⟨_, rest', h'⟩ => return ⟨[e], rest', by omega⟩
    | none =>
      let ⟨_, rest₁, h₁⟩ ← expect stop .comma rest
      let ⟨es, rest₂, h₂⟩ ← arguments rest₁
      return ⟨e :: es, rest₂, by omega⟩
termination_by 16 * ts.length + 12
decreasing_by all_goals omega

/-- The elements of an array, after the opening bracket. -/
def elements (ts : List Token) :
    Except SyntaxFault (Parsed (List Node) ts.length) :=
  match ts with
  | ⟨.symbol .bracketClose, _, _, _⟩ :: more => .ok ⟨[], more, by simp⟩
  | ⟨.symbol .comma, _, _, _⟩ :: more => do
    let ⟨es, rest, h⟩ ← elements more
    return ⟨.hole :: es, rest, by simp only [length_cons]; omega⟩
  | ts => do
    let ⟨e, rest, h⟩ ← spreadOrExpression ts
    match pass? (.symbol .bracketClose) rest with
    | some ⟨_, rest', h'⟩ => return ⟨[e], rest', by omega⟩
    | none =>
      let ⟨_, rest₁, h₁⟩ ← expect stop .comma rest
      let ⟨es, rest₂, h₂⟩ ← elements rest₁
      return ⟨e :: es, rest₂, by omega⟩
termination_by 16 * ts.length + 12
decreasing_by
  · simp only [length_cons]; omega
  · omega
  · omega

/-- The properties of an object, after the opening brace. -/
def properties (ts : List Token) :
    Except SyntaxFault (Parsed (List Node) ts.length) :=
  match ts with
  | ⟨.symbol .braceClose, _, _, _⟩ :: more => .ok ⟨[], more, by simp⟩
  | ts => do
    let ⟨e, rest, h⟩ ← property ts
    match pass? (.symbol .braceClose) rest with
    | some ⟨_, rest', h'⟩ => return ⟨[e], rest', by omega⟩
    | none =>
      let ⟨_, rest₁, h₁⟩ ← expect stop .comma rest
      let ⟨es, rest₂, h₂⟩ ← properties rest₁
      return ⟨e :: es, rest₂, by omega⟩
termination_by 16 * ts.length + 12
decreasing_by all_goals omega

/-- One property of an object. -/
def property (ts : List Token) : Except SyntaxFault (Parsed Node ts.length) :=
  match ts with
  | ⟨.symbol .ellipsis, _, _, _⟩ :: more => do
    let ⟨e, rest, h⟩ ← assignment more
    return ⟨.spread e, rest, by simp only [length_cons]; omega⟩
  | ts => do
    let ⟨key, rest, h⟩ ← propertyKey ts
    match pass? (.symbol .colon) rest with
    | some ⟨_, rest₁, h₁⟩ =>
      let ⟨value, rest₂, h₂⟩ ← assignment rest₁
      return ⟨.property key.node value key.computed false, rest₂, by omega⟩
    | none =>
      match key.shorthand with
      | some name =>
        if endsProperty rest then
          return ⟨.property key.node (.identifier name) false true, rest, h⟩
        else .error (misplacedAfterKey stop rest)
      | none => .error (misplacedAfterKey stop rest)
termination_by 16 * ts.length + 11
decreasing_by
  · simp only [length_cons]; omega
  · omega
  · omega

/-- The key of a property: an expression in brackets, a word, a string or a number. -/
def propertyKey (ts : List Token) : Except SyntaxFault (Parsed Key ts.length) :=
  match ts with
  | ⟨.symbol .bracketOpen, _, _, _⟩ :: more => do
    let ⟨key, rest₁, h₁⟩ ← assignment more
    let ⟨_, rest₂, h₂⟩ ← expect stop .bracketClose rest₁
    return ⟨⟨key, true, none⟩, rest₂, by simp only [length_cons]; omega⟩
  | ⟨.name, text, _, _⟩ :: more => .ok ⟨⟨.identifier text, false, some text⟩, more, by simp⟩
  | ⟨.keyword _, text, _, _⟩ :: more => .ok ⟨⟨.identifier text, false, none⟩, more, by simp⟩
  | ⟨.constant _, text, _, _⟩ :: more => .ok ⟨⟨.identifier text, false, none⟩, more, by simp⟩
  | ⟨.string, text, _, _⟩ :: more => do
    let key ← stringValue text
    return ⟨⟨key, false, none⟩, more, by simp⟩
  | ⟨.number, text, offset, newline⟩ :: more =>
    match readNumber? text with
    | some value => .ok ⟨⟨.number value (some text), false, none⟩, more, by simp⟩
    | none => .error (unexpected stop (⟨.number, text, offset, newline⟩ :: more) none)
  | ts => .error (unexpected stop ts (some .propertyName))
termination_by 16 * ts.length + 10
decreasing_by all_goals simp only [length_cons]; omega

/-- The pieces and the substitutions of a template literal, after the opening backtick; `raw` is
the text read since the last substitution. -/
def templateParts (raw : Text) (ts : List Token) :
    Except SyntaxFault (Parsed (List Node × List Node) ts.length) :=
  match ts with
  | ⟨.chunk, text, _, _⟩ :: more => do
    let ⟨parts, rest, h⟩ ← templateParts (raw ++ text) more
    return ⟨parts, rest, by simp only [length_cons]; omega⟩
  | ⟨.interpolationOpen, _, _, _⟩ :: more => do
    let piece ← templatePiece raw false
    let ⟨e, rest, h⟩ ← expression more
    match pass? .interpolationClose rest with
    | some ⟨_, rest₁, h₁⟩ =>
      let ⟨(pieces, es), rest₂, h₂⟩ ← templateParts [] rest₁
      return ⟨(piece :: pieces, e :: es), rest₂, by simp only [length_cons]; omega⟩
    | none => .error (unexpected stop rest (some (.expected Symbol.braceClose.spelling)))
  | ⟨.backtick, _, _, _⟩ :: more => do
    let piece ← templatePiece raw true
    return ⟨([piece], []), more, by simp⟩
  | _ => .error .unterminatedTemplate
termination_by 16 * ts.length
decreasing_by
  all_goals simp only [length_cons]; omega

/-- A literal, a name, or anything between brackets. -/
def primary (ts : List Token) : Except SyntaxFault (Parsed Operand ts.length) :=
  match ts with
  | ⟨.number, text, offset, newline⟩ :: more =>
    match readNumber? text with
    | some value => .ok ⟨⟨.number value (some text), false⟩, more, by simp⟩
    | none => .error (unexpected stop (⟨.number, text, offset, newline⟩ :: more) none)
  | ⟨.string, text, _, _⟩ :: more => do
    let value ← stringValue text
    return ⟨⟨value, false⟩, more, by simp⟩
  | ⟨.backtick, _, _, _⟩ :: more => do
    let ⟨(pieces, es), rest, h⟩ ← templateParts [] more
    return ⟨⟨.template pieces es, false⟩, rest, by simp only [length_cons]; omega⟩
  | ⟨.name, text, _, _⟩ :: more => .ok ⟨⟨.identifier text, false⟩, more, by simp⟩
  | ⟨.constant .null, _, _, _⟩ :: more => .ok ⟨⟨.null, false⟩, more, by simp⟩
  | ⟨.constant .true, _, _, _⟩ :: more => .ok ⟨⟨.boolean true, false⟩, more, by simp⟩
  | ⟨.constant .false, _, _, _⟩ :: more => .ok ⟨⟨.boolean false, false⟩, more, by simp⟩
  | ⟨.keyword .this, _, _, _⟩ :: more => .ok ⟨⟨.this, false⟩, more, by simp⟩
  | ⟨.symbol .parenOpen, _, _, _⟩ :: ⟨.symbol .parenClose, text, offset, newline⟩ :: more =>
    .error (unexpected stop (⟨.symbol .parenClose, text, offset, newline⟩ :: more) none)
  | ⟨.symbol .parenOpen, _, _, _⟩ :: more => do
    let ⟨e, rest₁, h₁⟩ ← expression more
    let ⟨_, rest₂, h₂⟩ ← expect stop .parenClose rest₁
    return ⟨⟨e, true⟩, rest₂, by simp only [length_cons]; omega⟩
  | ⟨.symbol .bracketOpen, _, _, _⟩ :: more => do
    let ⟨es, rest, h⟩ ← elements more
    return ⟨⟨.array es, false⟩, rest, by simp only [length_cons]; omega⟩
  | ⟨.symbol .braceOpen, _, _, _⟩ :: more => do
    let ⟨ps, rest, h⟩ ← properties more
    return ⟨⟨.object ps, false⟩, rest, by simp only [length_cons]; omega⟩
  | ts => .error (unexpected stop ts none)
termination_by 16 * ts.length + 2
decreasing_by all_goals simp only [length_cons]; omega

end

/-- Whether a new line, or the end of the text, separates the tokens from what stands before. -/
def startsLine : List Token → Bool
  | [] => true
  | t :: _ => t.newlineBefore

/-- A sequence of statements. -/
def statements (ts : List Token) : Except SyntaxFault (List Node) :=
  match ts with
  | [] => .ok []
  | ⟨.symbol .semicolon, _, _, _⟩ :: more => do
    let following ← statements more
    return .emptyStatement :: following
  | ⟨.symbol .braceOpen, _, offset, _⟩ :: _ => .error (.blockStatement offset)
  | t :: more =>
    match (match t.kind with
      | .keyword k => k.opensStatement
      | _ => false) with
    | true => .error (.keywordStatement t.text t.offset)
    | false => do
      let ⟨e, rest, _h⟩ ← expression stop (t :: more)
      match pass? (.symbol .semicolon) rest with
      | some ⟨_, rest', _h'⟩ =>
        let following ← statements rest'
        return .expressionStatement e :: following
      | none =>
        if startsLine rest then
          let following ← statements rest
          return .expressionStatement e :: following
        else .error (unexpected stop rest (some .missingSemicolon))
termination_by ts.length
decreasing_by
  · simp
  · omega
  · omega

end Parser

/-- The statements of a text. -/
def parse (source : Text) : Except SyntaxFault (List Node) := do
  let stream ← TokenStream.ofText source
  Parser.statements stream.stop stream.tokens

end ViewMarkup.Script
