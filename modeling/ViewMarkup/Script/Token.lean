import ViewMarkup.Script.Fault
import ViewMarkup.Script.Lexeme

/-!
# Tokens

The tokens of an expression are its lexemes without white space and comments.  Each token keeps
whether a line feed stood in what was left out before it, since a line feed can end a statement.
A code point that no lexical rule matches is a fault.
-/

namespace ViewMarkup.Script

/-- What a token is to the grammar. -/
inductive TokenKind where
  | name
  | keyword (k : Keyword)
  | constant (c : Constant)
  | number
  | string
  | symbol (s : Symbol)
  | backtick | chunk | interpolationOpen | interpolationClose
  deriving DecidableEq

/-- A token: its kind, its spelling, where it starts, and whether a line feed separates it from
the token before. -/
structure Token where
  kind : TokenKind
  text : Text
  offset : Nat
  newlineBefore : Bool
  deriving DecidableEq

/-- The tokens of a text, with where the text ends and whether a line feed stands between the last
token and the end. -/
structure TokenStream where
  tokens : List Token
  stop : Nat
  newlineAtEnd : Bool
  deriving DecidableEq

/-- The token kind of a lexeme: `none` for white space, comments and unknown code points. -/
def LexemeKind.token? : LexemeKind → Option TokenKind
  | .blank | .lineComment | .blockComment | .unknown => none
  | .backtick => some .backtick
  | .chunk => some .chunk
  | .interpolationOpen => some .interpolationOpen
  | .interpolationClose => some .interpolationClose
  | .doubleQuoted | .singleQuoted => some .string
  | .hexadecimal | .octal | .binary | .bigInteger | .decimal => some .number
  | .constant c => some (.constant c)
  | .keyword k => some (.keyword k)
  | .name => some .name
  | .symbol s => some (.symbol s)

namespace TokenStream

/-- The tokens among some lexemes, where `newline` says whether a line feed was left out since the
last token. -/
def ofLexemes (stop : Nat) (newline : Bool) : List Lexeme → Except SyntaxFault TokenStream
  | [] => .ok ⟨[], stop, newline⟩
  | lexeme :: rest =>
    match lexeme.kind.token?, lexeme.kind with
    | some kind, _ => do
      let following ← ofLexemes stop false rest
      return { following with
        tokens := ⟨kind, lexeme.text, lexeme.offset, newline⟩ :: following.tokens }
    | none, .unknown =>
      match lexeme.text with
      | c :: _ => .error (.unexpectedCharacter c lexeme.offset)
      | [] => ofLexemes stop newline rest
    | none, _ => ofLexemes stop (newline || lexeme.text.contains '\n') rest

/-- The tokens of a text. -/
def ofText (source : Text) : Except SyntaxFault TokenStream :=
  ofLexemes source.length false (Lexeme.scan source)

end TokenStream

end ViewMarkup.Script
