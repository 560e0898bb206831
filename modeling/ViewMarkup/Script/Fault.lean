import ViewMarkup.Text.Basic

/-!
# What can be wrong with an expression

The causes for which a text is not an expression, with the wording of each.  Positions are
offsets in code points and are shown counted from one.
-/

namespace ViewMarkup.Script

/-- What can be wrong with the escape sequences of a string. -/
inductive EscapeFault where
  | unterminated
  | hexadecimal
  | unicode
  /-- The number of the code point does not fit a 32-bit signed integer. -/
  | outOfRange
  deriving DecidableEq

namespace EscapeFault

def message : EscapeFault → Text
  | unterminated => "Unterminated string escape"
  | hexadecimal => "Invalid hexadecimal escape sequence"
  | unicode => "Invalid Unicode escape sequence"
  | outOfRange => "Code point out of range"

end EscapeFault

/-- What would have been right in place of an unexpected token. -/
inductive Hint where
  | expected (text : Text)
  | missingSemicolon
  | assignmentTarget
  | parameterName
  | propertyName
  | optionalInNew
  | newTarget
  deriving DecidableEq

namespace Hint

def message : Hint → Text
  | expected text => "expected '" ++ text ++ "'"
  | missingSemicolon => "missing semicolon"
  | assignmentTarget => "invalid left-hand side in assignment"
  | parameterName => "expected parameter name"
  | propertyName => "expected property name"
  | optionalInNew => "optional chain is not allowed in a new expression"
  | newTarget => "'new.target' is not supported"

end Hint

/-- Why a text is not a sequence of expressions. -/
inductive SyntaxFault where
  | unexpectedCharacter (c : CodePoint) (offset : Nat)
  /-- The token found, or the end of the text. -/
  | unexpected (found : Option Text) (hint : Option Hint) (offset : Nat)
  | blockStatement (offset : Nat)
  | keywordStatement (word : Text) (offset : Nat)
  | arrowBlockBody (offset : Nat)
  | taggedTemplate (offset : Nat)
  | objectMethod (offset : Nat)
  | unaryBeforePower
  | mixedCoalesce
  | updateTarget
  | unterminatedTemplate
  | escape (fault : EscapeFault)
  deriving DecidableEq

namespace SyntaxFault

/-- A position in parentheses. -/
def place (offset : Nat) : Text :=
  " (" ++ Text.ofNat (offset + 1) ++ ")"

def message : SyntaxFault → Text
  | unexpectedCharacter c offset => "Unexpected character '" ++ [c] ++ "'" ++ place offset
  | unexpected found hint offset =>
    (match found with
      | none => Text.ofString "Unexpected end of expression"
      | some text => "Unexpected token '" ++ text ++ "'") ++
    (match hint with
      | none => []
      | some hint => ", " ++ hint.message) ++
    place offset
  | blockStatement offset => "Block statements are not supported" ++ place offset
  | keywordStatement word offset => "Unexpected '" ++ word ++ "' statement" ++ place offset
  | arrowBlockBody offset => "Arrow function block bodies are not supported" ++ place offset
  | taggedTemplate offset => "Tagged templates are not supported" ++ place offset
  | objectMethod offset => "Object methods and accessors are not supported" ++ place offset
  | unaryBeforePower => "Unary operator used immediately before exponentiation expression"
  | mixedCoalesce => "Nullish coalescing cannot be mixed with '||' or '&&' without parentheses"
  | updateTarget => "Invalid left-hand side expression in update operation"
  | unterminatedTemplate => "Unterminated template literal"
  | escape fault => fault.message

end SyntaxFault

end ViewMarkup.Script
