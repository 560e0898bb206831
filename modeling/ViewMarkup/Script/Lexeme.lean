import ViewMarkup.Script.Symbol
import ViewMarkup.Text.Basic
import ViewMarkup.Text.Blank
import ViewMarkup.Text.Word

/-!
# Lexemes

A text of the expression language is cut into lexemes by ordered rules: at each point the first
rule that matches decides the kind and the length of the next lexeme, and a code point that no
rule matches becomes a lexeme of kind `unknown` by itself.  Inside a template literal other rules
hold, so the scanner carries a stack of modes, the innermost first.

* `Lexeme.scan` is total and returns every code point of the text in exactly one lexeme.
-/

namespace ViewMarkup.Script

/-- What a lexeme is. -/
inductive LexemeKind where
  | blank | lineComment | blockComment
  | backtick | chunk | interpolationOpen | interpolationClose
  | doubleQuoted | singleQuoted
  | hexadecimal | octal | binary | bigInteger | decimal
  | constant (c : Constant)
  | keyword (k : Keyword)
  | name
  | symbol (s : Symbol)
  | unknown
  deriving DecidableEq

/-- A piece of the text, with its distance from the start in code points. -/
structure Lexeme where
  kind : LexemeKind
  text : Text
  offset : Nat
  deriving DecidableEq

/-- What the scanner is inside of, apart from plain code. -/
inductive Mode where
  /-- The text of a template literal. -/
  | template
  /-- Code between the marks of a substitution. -/
  | interpolation
  /-- Code between braces inside a substitution. -/
  | braced
  deriving DecidableEq

namespace Lexeme

/-- The length of the longest run of code points with a property at the start of a text. -/
def run (p : CodePoint → Bool) (t : Text) : Nat :=
  (t.takeWhile p).length

/-- The length of a quoted string whose opening quote has been passed: up to the closing quote,
where a backslash takes the next code point with it and a bare line feed ends the search. -/
def quotedTail? (quote : CodePoint) : Text → Option Nat
  | [] => none
  | .char '\\' :: _ :: rest => (quotedTail? quote rest).map (· + 2)
  | c :: rest =>
    if c = quote then some 1
    else if c = '\\' || c = '\n' then none
    else (quotedTail? quote rest).map (· + 1)

/-- The length of the text of a template literal up to its next backtick or substitution. -/
def chunk : Text → Nat
  | .char '\\' :: _ :: rest => chunk rest + 2
  | .char '$' :: .char '\x7b' :: _ => 0
  | c :: rest => if c = '\\' || c = '\x60' then 0 else chunk rest + 1
  | [] => 0

def isHexDigit (c : CodePoint) : Bool :=
  let n := c.toNat
  (48 ≤ n && n ≤ 57) || (65 ≤ n && n ≤ 70) || (97 ≤ n && n ≤ 102)

def isOctalDigit (c : CodePoint) : Bool :=
  48 ≤ c.toNat && c.toNat ≤ 55

def isBinaryDigit (c : CodePoint) : Bool :=
  c == '0' || c == '1'

/-- The length of an integer in another base: `0`, the letter of the base in either case, at
least one digit, and perhaps the mark of a big integer. -/
def based? (lower upper : Char) (digit : CodePoint → Bool) : Text → Option Nat
  | .char '0' :: .char letter :: rest =>
    if letter = lower || letter = upper then
      match run digit rest with
      | 0 => none
      | n + 1 =>
        match rest.drop (n + 1) with
        | .char 'n' :: _ => some (n + 4)
        | _ => some (n + 3)
    else none
  | _ => none

/-- The length of a decimal big integer: digits and the letter `n`, not followed by a word. -/
def bigInteger? (t : Text) : Option Nat :=
  match run CodePoint.isDigit t with
  | 0 => none
  | n + 1 =>
    match t.drop (n + 1) with
    | .char 'n' :: rest =>
      match rest with
      | c :: _ => if c.continuesIdentifier then none else some (n + 2)
      | [] => some (n + 2)
    | _ => none

/-- The length of an exponent at the start of a text; zero if there is none. -/
def exponent (t : Text) : Nat :=
  match t with
  | .char e :: rest =>
    if e = 'e' || e = 'E' then
      match rest with
      | c :: digits =>
        if c = '+' || c = '-' then
          match run CodePoint.isDigit digits with
          | 0 => 0
          | n + 1 => n + 3
        else
          match run CodePoint.isDigit rest with
          | 0 => 0
          | n + 1 => n + 2
      | [] => 0
    else 0
  | _ => 0

/-- The length of the digits and the point of a decimal number. -/
def mantissa? (t : Text) : Option Nat :=
  match run CodePoint.isDigit t with
  | 0 =>
    match t with
    | .char '.' :: rest =>
      match run CodePoint.isDigit rest with
      | 0 => none
      | n + 1 => some (n + 2)
    | _ => none
  | n + 1 =>
    match t.drop (n + 1) with
    | .char '.' :: rest => some (n + 2 + run CodePoint.isDigit rest)
    | _ => some (n + 1)

/-- The length of a decimal number. -/
def decimal? (t : Text) : Option Nat :=
  (mantissa? t).map fun n => n + exponent (t.drop n)

/-- The kind and the length of a number. -/
def number? (t : Text) : Option (LexemeKind × Nat) :=
  match based? 'x' 'X' isHexDigit t with
  | some n => some (.hexadecimal, n)
  | none =>
  match based? 'o' 'O' isOctalDigit t with
  | some n => some (.octal, n)
  | none =>
  match based? 'b' 'B' isBinaryDigit t with
  | some n => some (.binary, n)
  | none =>
  match bigInteger? t with
  | some n => some (.bigInteger, n)
  | none => (decimal? t).map fun n => (.decimal, n)

/-- The kind and the length of a word: a constant, a keyword or a name. -/
def word? (t : Text) : Option (LexemeKind × Nat) :=
  match t with
  | [] => none
  | c :: rest =>
    if c.startsIdentifier then
      let word := c :: rest.takeWhile CodePoint.continuesIdentifier
      let kind :=
        match Constant.ofText? word with
        | some k => .constant k
        | none =>
          match Keyword.ofText? word with
          | some k => .keyword k
          | none => .name
      some (kind, word.length)
    else none

/-- Whether a symbol stands at the start of a text.  An optional link is not one if a digit
follows, since `?.5` is a question mark and a number. -/
def symbolFits (s : Symbol) (t : Text) : Bool :=
  match Text.after? s.spelling t with
  | none => false
  | some rest =>
    match s, rest with
    | .optionalDot, c :: _ => !c.isDigit
    | _, _ => true

/-- The first symbol that fits, with its length. -/
def symbol? (t : Text) : Option (LexemeKind × Nat) :=
  ((Symbol.marks ++ Symbol.operators ++ Symbol.brackets).find? fun s => symbolFits s t).map
    fun s => (.symbol s, s.spelling.length)

/-- The length of a comment that runs to the end of its line. -/
def lineComment? (t : Text) : Option Nat :=
  (Text.after? "//" t).map fun rest => 2 + run (fun c => c != '\n') rest

/-- The length of a comment between `/*` and the next `*/`. -/
def blockComment? (t : Text) : Option Nat :=
  (Text.after? "/*" t).bind fun rest =>
    (Text.cut? "*/" rest).map fun (inside, _) => inside.length + 4

/-- The kind and the length of the next lexeme of code. -/
def code? (t : Text) : Option (LexemeKind × Nat) :=
  match t with
  | [] => none
  | c :: rest =>
    if c.isBlank then some (.blank, run CodePoint.isBlank t) else
    match lineComment? t with
    | some n => some (.lineComment, n)
    | none =>
    match blockComment? t with
    | some n => some (.blockComment, n)
    | none =>
    if c = '\x60' then some (.backtick, 1) else
    match (if c = '"' then quotedTail? '"' rest else none) with
    | some n => some (.doubleQuoted, n + 1)
    | none =>
    match (if c = '\'' then quotedTail? '\'' rest else none) with
    | some n => some (.singleQuoted, n + 1)
    | none =>
    match number? t with
    | some found => some found
    | none =>
    match word? t with
    | some found => some found
    | none => symbol? t

/-- The kind and the length of the next lexeme of a template literal. -/
def template? (t : Text) : Option (LexemeKind × Nat) :=
  match t with
  | .char '\x60' :: _ => some (.backtick, 1)
  | .char '$' :: .char '\x7b' :: _ => some (.interpolationOpen, 2)
  | _ =>
    match chunk t with
    | 0 => none
    | n + 1 => some (.chunk, n + 1)

/-- One step of the scanner: the kind of the next lexeme, its length, and the modes after it. -/
def step (modes : List Mode) (t : Text) : LexemeKind × Nat × List Mode :=
  match modes with
  | .template :: outer =>
    match template? t with
    | some (.backtick, n) => (.backtick, n, outer)
    | some (.interpolationOpen, n) => (.interpolationOpen, n, .interpolation :: modes)
    | some (kind, n) => (kind, n, modes)
    | none => (.unknown, 1, modes)
  | _ =>
    match code? t with
    | some (.backtick, n) => (.backtick, n, .template :: modes)
    | some (.symbol .braceClose, n) =>
      match modes with
      | .interpolation :: outer => (.interpolationClose, n, outer)
      | .braced :: outer => (.symbol .braceClose, n, outer)
      | _ => (.symbol .braceClose, n, modes)
    | some (.symbol .braceOpen, n) =>
      match modes with
      | [] => (.symbol .braceOpen, n, modes)
      | _ => (.symbol .braceOpen, n, .braced :: modes)
    | some (kind, n) => (kind, n, modes)
    | none => (.unknown, 1, modes)

/-- The lexemes of a text that starts at `offset`.  Every lexeme takes at least one code point. -/
def scanFrom (modes : List Mode) (offset : Nat) : Text → List Lexeme
  | [] => []
  | c :: rest =>
    let (kind, length, modes) := step modes (c :: rest)
    let text := c :: rest.take (length - 1)
    ⟨kind, text, offset⟩ :: scanFrom modes (offset + text.length) (rest.drop (length - 1))
  termination_by t => t.length
  decreasing_by
    simp only [List.length_drop, List.length_cons]
    omega

/-- The lexemes of a text. -/
def scan (t : Text) : List Lexeme :=
  scanFrom [] 0 t

end Lexeme

end ViewMarkup.Script
