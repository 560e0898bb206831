import ViewMarkup.Script.Parser

/-!
# Glyphs

What the tokens of a program show apart from parentheses, commas and semicolons, and what a syntax
tree shows: the same words and marks, in the order in which the tree is read from left to right.
-/

namespace ViewMarkup.Script

/-- What a token shows.  A string shows its value, so that it may be spelt in several ways. -/
inductive Glyph where
  | spelt (text : Text)
  | string (value : Except EscapeFault Text)
  /-- A piece of the text of a template literal, as written. -/
  | chunk (raw : Text)

/-- The text of a token without the quotes of a string. -/
def Token.content (t : Token) : Text :=
  match t.kind with
  | .string => (t.text.drop 1).dropLast
  | _ => t.text

/-- Parentheses, commas and semicolons show nothing. -/
@[simp]
def Symbol.isSilent : Symbol → Bool
  | .parenOpen | .parenClose | .comma | .semicolon => true
  | _ => false

/-- What a token shows. -/
def Token.glyph? (t : Token) : Option Glyph :=
  match t.kind with
  | .symbol s => if s.isSilent then none else some (.spelt t.content)
  | .string => some (.string (decodeEscapes t.content))
  | .chunk => some (.chunk t.content)
  | _ => some (.spelt t.content)

/-- What some tokens say. -/
def glyphs (ts : List Token) : List Glyph :=
  ts.filterMap Token.glyph?

namespace Glyph

/-- Pieces of one template that stand side by side, joined. -/
def joined : List Glyph → List Glyph
  | [] => []
  | .chunk raw :: rest =>
    match joined rest with
    | .chunk more :: rest => .chunk (raw ++ more) :: rest
    | rest => .chunk raw :: rest
  | glyph :: rest => glyph :: joined rest

def symbol (s : Symbol) : Glyph :=
  .spelt s.spelling

/-- What a symbol shows. -/
@[simp]
def mark (s : Symbol) : List Glyph :=
  if s.isSilent then [] else [symbol s]

def backtick : Glyph :=
  .spelt "`"

/-- The piece of a template literal, if there is any text in it. -/
def piece (raw : Text) : List Glyph :=
  if raw.isEmpty then [] else [.chunk raw]

/-- A key, in brackets if it is computed. -/
def key (computed : Bool) (glyphs : List Glyph) : List Glyph :=
  if computed then symbol .bracketOpen :: (glyphs ++ [symbol .bracketClose]) else glyphs

/-- What stands between an object and the key of an access to it. -/
def link (computed optional : Bool) : List Glyph :=
  if optional then [symbol .optionalDot] else if computed then [] else [symbol .dot]

end Glyph

namespace Node

/-- What a piece of a template literal shows. -/
def pieceGlyphs : Node → List Glyph
  | .templateElement raw _ _ => Glyph.piece raw
  | _ => []

mutual

/-- What an expression or a statement of expressions shows.  The nodes that only generated modules
have show nothing. -/
def glyphs : Node → List Glyph
  | .identifier name => [.spelt name]
  | .string value => [.string (.ok value)]
  | .number _ raw => raw.toList.map .spelt
  | .boolean value => [.spelt (if value then Constant.true else .false).spelling]
  | .null => [.spelt Constant.null.spelling]
  | .this => [.spelt Keyword.this.spelling]
  | .template quasis es => Glyph.backtick :: (templateGlyphs quasis es ++ [Glyph.backtick])
  | .spread argument => .symbol .ellipsis :: glyphs argument
  | .array items => .symbol .bracketOpen :: (glyphsAll items ++ [.symbol .bracketClose])
  | .property key value computed shorthand =>
    if shorthand then glyphs value
    else Glyph.key computed (glyphs key) ++ .symbol .colon :: glyphs value
  | .object ps => .symbol .braceOpen :: (glyphsAll ps ++ [.symbol .braceClose])
  | .member whole key computed optional =>
    glyphs whole ++ Glyph.link computed optional ++ Glyph.key computed (glyphs key)
  | .call callee args optional =>
    glyphs callee ++ (if optional then [.symbol .optionalDot] else []) ++ glyphsAll args
  | .new callee args => .spelt Keyword.new.spelling :: (glyphs callee ++ glyphsAll args)
  | .conditional test consequent alternate =>
    glyphs test ++ .symbol .question :: (glyphs consequent ++ .symbol .colon :: glyphs alternate)
  | .binary op left right | .logical op left right =>
    glyphs left ++ .spelt op.spelling :: glyphs right
  | .unary op argument => .spelt op.spelling :: glyphs argument
  | .update op argument leading =>
    if leading then .spelt op.spelling :: glyphs argument
    else glyphs argument ++ [.spelt op.spelling]
  | .assignment op left right => glyphs left ++ .spelt op.spelling :: glyphs right
  | .sequence es => glyphsAll es
  | .arrow params body => glyphsAll params ++ .symbol .arrow :: glyphs body
  | .assignmentPattern left right => glyphs left ++ .symbol .equals :: glyphs right
  | .expressionStatement e => glyphs e
  | _ => []

/-- What some nodes say, one after the other. -/
def glyphsAll : List Node → List Glyph
  | [] => []
  | node :: nodes => glyphs node ++ glyphsAll nodes

/-- What stands between the backticks of a template literal: its pieces, and the substitutions
between them. -/
def templateGlyphs (quasis : List Node) : List Node → List Glyph
  | [] => quasis.flatMap pieceGlyphs
  | e :: es =>
    (quasis.take 1).flatMap pieceGlyphs ++ .spelt "$\x7b" :: (glyphs e ++
      .spelt "\x7d" :: templateGlyphs (quasis.drop 1) es)

end

attribute [simp] glyphs glyphsAll templateGlyphs pieceGlyphs Glyph.key Glyph.link

end Node

end ViewMarkup.Script
