import ViewMarkup.Yaml.Scalar

/-!
# Tokens of YAML documents

The scanner turns a text into tokens.  Blocks are told by indentation: when the column of a token is
larger than that of the innermost block, a new block starts, and when it is smaller, blocks end.

Whether a scalar is the key of a mapping shows only at the colon after it.  Until then it is a
candidate, and when the colon comes, the tokens that start the mapping are put before it.

* `Yaml.tokens` is the list of tokens of a text.
-/

namespace ViewMarkup.Yaml

/-- A token of a document. -/
inductive Token where
  | directive
  | documentStart
  | documentEnd
  | blockSequenceStart
  | blockMappingStart
  | blockEnd
  | flowSequenceStart
  | flowSequenceEnd
  | flowMappingStart
  | flowMappingEnd
  | blockEntry
  | flowEntry
  | key
  | value
  | reference (name : Text)
  | anchor (name : Text)
  | tag (tag : Tag)
  | scalar (text : Text) (isPlain : Bool)
  deriving DecidableEq

/-- A token that may turn out to be a key. -/
structure Candidate where
  /-- How many tokens come before it. -/
  position : Nat
  /-- It stands where only a key can stand. -/
  required : Bool
  index : Nat
  line : Nat
  column : Nat

/-- The state of a scanner. -/
structure Scanner where
  rest : Text
  index : Nat
  line : Nat
  column : Nat
  /-- How many brackets and braces are open. -/
  flowLevel : Nat
  /-- The column of the innermost block, or minus one. -/
  indent : Int
  /-- The columns of the blocks around it. -/
  indents : List Int
  /-- A key may start here. -/
  allowKey : Bool
  /-- The candidates, with the level of each. -/
  candidates : List (Nat × Candidate)
  tokens : List Token

/-- A step of the scanner. -/
abbrev Scan := StateT Scanner (Except YamlFault)

/-- Characters that end a line. -/
def isBreak (c : CodePoint) : Bool :=
  c = '\n' || c = '\r' || c = '\x85' || c = '\u2028' || c = '\u2029'

/-- Whether there is a blank, the end of a line or the end of the text. -/
def isGap (c : Option CodePoint) : Bool :=
  match c with
  | none => true
  | some c => c = ' ' || c = '\t' || isBreak c

/-- Characters that a document may hold. -/
def isPrintable (c : CodePoint) : Bool :=
  let n := c.toNat
  n = 9 || n = 10 || n = 13 || (32 ≤ n && n ≤ 126) || n = 0x85 || (0xA0 ≤ n && n < 0xD800) ||
    (0xE000 ≤ n && n ≤ 0xFFFD) || 0x10000 ≤ n

namespace Scanner

/-- A scanner at the start of a text. -/
def start (text : Text) : Scanner :=
  ⟨text, 0, 0, 0, 0, -1, [], true, [], []⟩

/-- Passes one character. -/
def pass (s : Scanner) : Scanner :=
  match s.rest with
  | [] => s
  | c :: rest =>
    let s := { s with rest, index := s.index + 1 }
    if isBreak c && !(c = '\r' && rest.head? = some '\n') then
      { s with line := s.line + 1, column := 0 }
    else if c = '\uFEFF' then s
    else { s with column := s.column + 1 }

def passMany (s : Scanner) : Nat → Scanner
  | 0 => s
  | n + 1 => s.pass.passMany n

/-- The characters in front that satisfy a condition, and the scanner after them. -/
def span (s : Scanner) (p : CodePoint → Bool) : Text × Scanner :=
  let taken := s.rest.takeWhile p
  (taken, s.passMany taken.length)

end Scanner

def peek (n : Nat) : Scan (Option CodePoint) := do
  return (← get).rest[n]?

def forward (n : Nat) : Scan Unit :=
  modify fun s => s.passMany n

/-- Takes the characters in front that satisfy a condition. -/
def takeWhile (p : CodePoint → Bool) : Scan Text := do
  let (taken, s) := (← get).span p
  set s
  return taken

def emit (token : Token) : Scan Unit :=
  modify fun s => { s with tokens := s.tokens ++ [token] }

def malformed {α : Type} : Scan α :=
  throw .malformed

/-- Whether a document mark of three characters stands here. -/
def atMark (mark : Text) : Scan Bool := do
  let s ← get
  match Text.after? mark s.rest with
  | some rest => return isGap rest.head?
  | none => return false

/-- Whether a document starts or ends here. -/
def atAnyMark : Scan Bool := do
  return (← atMark "---") || (← atMark "...")

/-- Passes the end of a line, and gives it as it counts in a scalar. -/
def lineBreak : Scan Text := do
  match (← get).rest with
  | .char '\r' :: .char '\n' :: _ =>
    forward 2
    return "\n"
  | c :: _ =>
    if isBreak c then
      forward 1
      return if c = '\u2028' || c = '\u2029' then [c] else [.char '\n']
    else return []
  | [] => return []

/-! ### Blocks and keys -/

/-- Ends the blocks that start further right than a column. -/
def unwind (column : Int) : Scan Unit := do
  let s ← get
  if s.flowLevel = 0 then
    let ended := (s.indent :: s.indents).takeWhile fun n => decide (column < n)
    match (s.indent :: s.indents).drop ended.length with
    | indent :: indents =>
      set { s with indent, indents, tokens := s.tokens ++ ended.map fun _ => Token.blockEnd }
    | [] => set { s with indent := -1, indents := [] }

/-- Starts a block at a column, unless one starts there already. -/
def indentTo (column : Int) : Scan Bool := do
  let s ← get
  if s.indent < column then
    set { s with indent := column, indents := s.indent :: s.indents }
    return true
  else return false

/-- Gives up the candidate of the current level. -/
def dropCandidate : Scan Unit := do
  let s ← get
  if let some candidate := s.candidates.lookup s.flowLevel then
    if candidate.required then malformed
  set { s with candidates := s.candidates.filter fun (level, _) => level != s.flowLevel }

/-- Gives up the candidates on earlier lines. -/
def dropStale : Scan Unit := do
  let s ← get
  let isStale (c : Candidate) := c.line != s.line || 1024 < s.index - c.index
  if s.candidates.any fun (_, c) => isStale c && c.required then malformed
  set { s with candidates := s.candidates.filter fun (_, c) => !isStale c }

/-- Makes the token that starts here a candidate. -/
def saveCandidate : Scan Unit := do
  let s ← get
  if s.allowKey then
    dropCandidate
    modify fun s => { s with
      candidates := (s.flowLevel, {
        position := s.tokens.length
        required := s.flowLevel = 0 && s.indent = s.column
        index := s.index
        line := s.line
        column := s.column }) :: s.candidates }

def allowKey (allow : Bool) : Scan Unit :=
  modify fun s => { s with allowKey := allow }

/-! ### Scalars -/

/-- The breaks and blanks between two parts of a plain scalar; nothing if it ends here. -/
def plainBreaks (fuel : Nat) (breaks : Text) : Scan (Option Text) := do
  match fuel with
  | 0 => return some breaks
  | fuel + 1 =>
    match ← peek 0 with
    | some c =>
      if c = ' ' then
        forward 1
        plainBreaks fuel breaks
      else if isBreak c then
        let line ← lineBreak
        if ← atAnyMark then return none
        plainBreaks fuel (breaks ++ line)
      else return some breaks
    | none => return some breaks

def plainSpaces : Scan Text := do
  let blanks ← takeWhile fun c => c = .char ' '
  match ← peek 0 with
  | some c =>
    if isBreak c then
      let first ← lineBreak
      allowKey true
      if ← atAnyMark then return []
      match ← plainBreaks (← get).rest.length [] with
      | none => return []
      | some breaks =>
        if first ≠ Text.ofString "\n" then return first ++ breaks
        else if breaks.isEmpty then return [.char ' ']
        else return breaks
    else return blanks
  | none => return blanks

/-- How many characters of a plain scalar stand in front. -/
def plainLength (isFlow : Bool) : Text → Nat
  | [] => 0
  | c :: rest =>
    let next := rest.head?
    let flowMark (c : CodePoint) := [',', '[', ']', '\x7b', '\x7d'].any fun m => c = .char m
    if isGap (some c) || (c = ':' && (isGap next || (isFlow && next.any flowMark))) ||
        (isFlow && (flowMark c || c = '?')) then 0
    else plainLength isFlow rest + 1

def plainParts (fuel : Nat) (indent : Int) (text spaces : Text) : Scan Text := do
  match fuel with
  | 0 => return text
  | fuel + 1 =>
    let s ← get
    let length := plainLength (s.flowLevel != 0) s.rest
    if s.rest.head? = some '#' || length = 0 then return text
    allowKey false
    let text := text ++ spaces ++ s.rest.take length
    forward length
    let spaces ← plainSpaces
    let s ← get
    if spaces.isEmpty || s.rest.head? = some '#' ||
        (s.flowLevel = 0 && (s.column : Int) < indent) then
      return text
    plainParts fuel indent text spaces

/-- The breaks inside a quoted scalar. -/
def quotedBreaks (fuel : Nat) (breaks : Text) : Scan Text := do
  match fuel with
  | 0 => return breaks
  | fuel + 1 =>
    if ← atAnyMark then malformed
    let _ ← takeWhile fun c => c = .char ' ' || c = .char '\t'
    if (← peek 0).any isBreak then quotedBreaks fuel (breaks ++ (← lineBreak))
    else return breaks

/-- The blanks inside a quoted scalar. -/
def quotedSpaces : Scan Text := do
  let blanks ← takeWhile fun c => c = .char ' ' || c = .char '\t'
  match ← peek 0 with
  | none => malformed
  | some c =>
    if isBreak c then
      let first ← lineBreak
      let breaks ← quotedBreaks ((← get).rest.length + 1) []
      if first ≠ Text.ofString "\n" then return first ++ breaks
      else if breaks.isEmpty then return [.char ' ']
      else return breaks
    else return blanks

/-- The characters that stand for others after a backslash. -/
def escapes : List (Char × Char) :=
  [('0', '\x00'), ('a', '\x07'), ('b', '\x08'), ('t', '\t'), ('\t', '\t'), ('n', '\n'),
   ('v', '\x0b'), ('f', '\x0c'), ('r', '\r'), ('e', '\x1b'), (' ', ' '), ('"', '"'), ('\\', '\\'),
   ('/', '/'), ('N', '\x85'), ('_', '\xa0'), ('L', '\u2028'), ('P', '\u2029')]

/-- How many hexadecimal digits follow a letter after a backslash. -/
def escapeLengths : List (Char × Nat) :=
  [('x', 2), ('u', 4), ('U', 8)]

/-- An escape in a quoted scalar, after the backslash. -/
def escape : Scan Text := do
  match ← peek 0 with
  | some (.char c) =>
    if let some meant := escapes.lookup c then
      forward 1
      return [.char meant]
    else if let some length := escapeLengths.lookup c then
      forward 1
      let digits := (← get).rest.take length
      if digits.length < length || !digits.all (isDigitOf 16) then malformed
      forward length
      match CodePoint.ofNat? (valueIn 16 digits) with
      | some c => return [c]
      | none => throw .badNumber
    else if isBreak c then
      let _ ← lineBreak
      quotedBreaks ((← get).rest.length + 1) []
    else malformed
  | _ => malformed

/-- The part of a quoted scalar up to a blank or its end. -/
def quotedPart (isDouble : Bool) (fuel : Nat) (text : Text) : Scan Text := do
  match fuel with
  | 0 => return text
  | fuel + 1 =>
    let plain ← takeWhile fun c =>
      !(c = .char '\'' || c = .char '"' || c = .char '\\' || isGap (some c))
    let text := text ++ plain
    match (← get).rest with
    | .char '\'' :: rest =>
      if isDouble then
        forward 1
        quotedPart isDouble fuel (text ++ [.char '\''])
      else if rest.head? = some '\'' then
        forward 2
        quotedPart isDouble fuel (text ++ [.char '\''])
      else return text
    | .char '"' :: _ =>
      if isDouble then return text
      else
        forward 1
        quotedPart isDouble fuel (text ++ [.char '"'])
    | .char '\\' :: _ =>
      forward 1
      if isDouble then quotedPart isDouble fuel (text ++ (← escape))
      else quotedPart isDouble fuel (text ++ [.char '\\'])
    | _ => return text

def quotedRest (quote : CodePoint) (fuel : Nat) (text : Text) : Scan Text := do
  match fuel with
  | 0 => malformed
  | fuel + 1 =>
    if (← peek 0) = some quote then
      forward 1
      return text
    else
      let spaces ← quotedSpaces
      let part ← quotedPart (quote = .char '"') ((← get).rest.length + 1) []
      quotedRest quote fuel (text ++ spaces ++ part)

/-- The empty lines before a line of a block scalar. -/
def blockBreaks (indent : Int) (fuel : Nat) (breaks : Text) : Scan Text := do
  match fuel with
  | 0 => return breaks
  | fuel + 1 =>
    let s ← get
    let blanks := s.rest.takeWhile fun c => c = .char ' '
    forward (min blanks.length (indent - s.column).toNat)
    if (← peek 0).any isBreak then blockBreaks indent fuel (breaks ++ (← lineBreak))
    else return breaks

/-- The empty lines at the start of a block scalar, and the deepest column among them. -/
def blockIndentation (fuel : Nat) (breaks : Text) (deepest : Nat) : Scan (Text × Nat) := do
  match fuel with
  | 0 => return (breaks, deepest)
  | fuel + 1 =>
    match ← peek 0 with
    | some c =>
      if c = ' ' then
        forward 1
        blockIndentation fuel breaks (max deepest (← get).column)
      else if isBreak c then blockIndentation fuel (breaks ++ (← lineBreak)) deepest
      else return (breaks, deepest)
    | none => return (breaks, deepest)

/-- The lines of a block scalar, with the last break and the empty lines after it. -/
def blockLines (isFolded : Bool) (indent : Int) (fuel : Nat) (text breaks : Text) :
    Scan (Text × Text × Text) := do
  match fuel with
  | 0 => return (text, [], breaks)
  | fuel + 1 =>
    let s ← get
    if (s.column : Int) ≠ indent || s.rest.isEmpty then return (text, [], breaks)
    let startsFlush := !(s.rest.head?.any fun c => c = .char ' ' || c = .char '\t')
    let line ← takeWhile fun c => !isBreak c
    let text := text ++ breaks ++ line
    let lineEnd ← lineBreak
    let breaks ← blockBreaks indent ((← get).rest.length + 1) []
    let s ← get
    if (s.column : Int) = indent && !s.rest.isEmpty then
      let nextFlush := !(s.rest.head?.any fun c => c = .char ' ' || c = .char '\t')
      let joint : Text :=
        if isFolded && lineEnd = Text.ofString "\n" && startsFlush && nextFlush then
          if breaks.isEmpty then [.char ' '] else []
        else lineEnd
      blockLines isFolded indent fuel (text ++ joint) breaks
    else return (text, lineEnd, breaks)

/-- What is done with the line ends at the end of a block scalar. -/
inductive Chomping where
  | strip
  | clip
  | keep

/-- The indicators after the mark of a block scalar. -/
def blockIndicators : Scan (Chomping × Option Nat) := do
  let chomping? (c : Option CodePoint) : Option Chomping :=
    if c = some '+' then some .keep else if c = some '-' then some .strip else none
  let increment? (c : Option CodePoint) : Option Nat :=
    (c.filter (isDigitOf 10)).map fun c => valueIn 10 [c]
  let first ← peek 0
  let second ← peek 1
  let (chomping, increment, length) : Chomping × Option Nat × Nat :=
    match chomping? first, increment? first with
    | some chomping, _ =>
      match increment? second with
      | some n => (chomping, some n, 2)
      | none => (chomping, none, 1)
    | none, some n =>
      match chomping? second with
      | some chomping => (chomping, some n, 2)
      | none => (.clip, some n, 1)
    | none, none => (.clip, none, 0)
  if increment = some 0 then malformed
  forward length
  if !isGap (← peek 0) || (← peek 0) = some '\t' then malformed
  return (chomping, increment)

/-- Passes blanks, a comment and the end of the line, with nothing else between. -/
def restOfLine : Scan Unit := do
  let _ ← takeWhile fun c => c = .char ' '
  if (← peek 0) = some '#' then
    let _ ← takeWhile fun c => !isBreak c
  if !((← peek 0).all isBreak) then malformed
  let _ ← lineBreak

def blockScalar (isFolded : Bool) : Scan Text := do
  forward 1
  let (chomping, increment) ← blockIndicators
  restOfLine
  let s ← get
  let fuel := s.rest.length + 1
  let least := max (s.indent + 1) 1
  let (breaks, indent) ← match increment with
    | none => do
      let (breaks, deepest) ← blockIndentation fuel [] 0
      pure (breaks, max least deepest)
    | some n => do
      let indent := least + n - 1
      pure (← blockBreaks indent fuel [], indent)
  let (body, lineEnd, breaks) ← blockLines isFolded indent fuel [] breaks
  return match chomping with
    | .strip => body
    | .clip => body ++ lineEnd
    | .keep => body ++ lineEnd ++ breaks

/-- The name of an anchor or of a reference to one. -/
def anchorName : Scan Text := do
  forward 1
  let name ← takeWhile fun c =>
    decide (c.toNat < 128) && (isDigitOf 36 c || c = '-' || c = '_')
  let next ← peek 0
  let ends := ['?', ':', ',', ']', '\x7d', '%', '@', '\x60'].any fun m => next = some (.char m)
  if name.isEmpty || !(isGap next || ends) then malformed
  return name

/-- Characters that the name of a tag may hold. -/
def isTagChar (c : CodePoint) : Bool :=
  isDigitOf 36 c || ("-;/?:@&=+$,_.!~*'()[]%" : Text).contains c

/-- The name of a tag. -/
def tagName : Scan Text := do
  let name ← takeWhile isTagChar
  if name.isEmpty then malformed
  return name

/-- A tag.  Two marks come before the name of a core tag, one before any other, and a whole name
stands between angle brackets; other names between two marks are not known. -/
def tag : Scan Tag := do
  forward 1
  let tag ← match (← get).rest with
    | .char '<' :: _ => do
      forward 1
      let _ ← tagName
      if (← peek 0) != some '>' then malformed
      forward 1
      pure .other
    | .char '!' :: _ => do
      forward 1
      pure (.core (← tagName))
    | rest =>
      if isGap rest.head? then pure .bare
      else do
        let word := rest.takeWhile fun c => !(c = .char ' ' || isBreak c)
        if word.contains (.char '!') then malformed
        let _ ← tagName
        pure .other
  if !((← peek 0).all fun c => c = .char ' ' || isBreak c) then malformed
  return tag

/-! ### Tokens -/

/-- Goes to the next token over blanks, comments and line ends. -/
def toNextToken (fuel : Nat) : Scan Unit := do
  match fuel with
  | 0 => return
  | fuel + 1 =>
    let _ ← takeWhile fun c => c = .char ' '
    if (← peek 0) = some '#' then
      let _ ← takeWhile fun c => !isBreak c
    if (← peek 0).any isBreak then
      let _ ← lineBreak
      if (← get).flowLevel = 0 then allowKey true
      toNextToken fuel

/-- A mark between documents. -/
def documentMark (token : Token) : Scan Unit := do
  unwind (-1)
  dropCandidate
  allowKey false
  forward 3
  emit token

/-- Whether the version of a directive is one that can be read: two numbers with a point between,
the first of which is one. -/
def isVersion (t : Text) : Bool :=
  let major := t.takeWhile (isDigitOf 10)
  match t.drop major.length with
  | .char '.' :: rest =>
    let minor := rest.takeWhile (isDigitOf 10)
    valueIn 10 major = 1 && !minor.isEmpty &&
      match rest.drop minor.length with
      | [] => true
      | c :: rest =>
        c = ' ' && (rest.dropWhile fun c => c = .char ' ').head?.all fun c => c = .char '#'
  | _ => false

/-- A directive, of which only the name and the version matter. -/
def directive : Scan Unit := do
  unwind (-1)
  dropCandidate
  allowKey false
  forward 1
  let line ← takeWhile fun c => !isBreak c
  let name := line.takeWhile fun c => isDigitOf 36 c || c = .char '-' || c = .char '_'
  let rest := line.drop name.length
  if name.isEmpty || !(rest.head?.all fun c => c = .char ' ') then malformed
  if name = Text.ofString "YAML" then
    if !isVersion (rest.dropWhile fun c => c = .char ' ') then malformed
  emit .directive

def flowStart (token : Token) : Scan Unit := do
  saveCandidate
  modify fun s => { s with flowLevel := s.flowLevel + 1 }
  allowKey true
  forward 1
  emit token

def flowEnd (token : Token) : Scan Unit := do
  dropCandidate
  modify fun s => { s with flowLevel := s.flowLevel - 1 }
  allowKey false
  forward 1
  emit token

def flowEntry : Scan Unit := do
  allowKey true
  dropCandidate
  forward 1
  emit .flowEntry

/-- Starts a block of some kind where a key or an entry may stand. -/
def startBlock (token : Token) : Scan Unit := do
  let s ← get
  if s.flowLevel = 0 then
    if !s.allowKey then malformed
    if ← indentTo s.column then emit token

def blockEntry : Scan Unit := do
  startBlock .blockSequenceStart
  allowKey true
  dropCandidate
  forward 1
  emit .blockEntry

def explicitKey : Scan Unit := do
  startBlock .blockMappingStart
  allowKey ((← get).flowLevel = 0)
  dropCandidate
  forward 1
  emit .key

/-- The colon after a key.  A candidate becomes the key. -/
def valueMark : Scan Unit := do
  let s ← get
  match s.candidates.lookup s.flowLevel with
  | some candidate =>
    set { s with candidates := s.candidates.filter fun (level, _) => level != s.flowLevel }
    let starts ← if s.flowLevel = 0 then indentTo candidate.column else pure false
    let marks := if starts then [Token.blockMappingStart, .key] else [.key]
    modify fun s => { s with
      tokens := s.tokens.take candidate.position ++ marks ++ s.tokens.drop candidate.position }
    allowKey false
  | none =>
    startBlock .blockMappingStart
    allowKey (s.flowLevel = 0)
    dropCandidate
  forward 1
  emit .value

/-- A token that may be a key. -/
def node (scan : Scan Token) : Scan Unit := do
  saveCandidate
  allowKey false
  emit (← scan)

def quotedScalar (quote : CodePoint) : Scan Token := do
  forward 1
  let part ← quotedPart (quote = .char '"') ((← get).rest.length + 1) []
  return .scalar (← quotedRest quote ((← get).rest.length + 1) part) false

def plainScalar : Scan Token := do
  let s ← get
  return .scalar (← plainParts (s.rest.length + 1) (s.indent + 1) [] []) true

/-- Characters that start something else than a plain scalar. -/
def indicators : List Char :=
  ['-', '?', ':', ',', '[', ']', '\x7b', '\x7d', '#', '&', '*', '!', '|', '>', '\'', '"', '%', '@',
   '\x60']

/-- Scans one token; `false` at the end of the text. -/
def nextToken : Scan Bool := do
  toNextToken ((← get).rest.length + 1)
  dropStale
  unwind (← get).column
  let s ← get
  let next := s.rest[1]?
  let inFlow := s.flowLevel != 0
  match s.rest.head? with
  | none =>
    unwind (-1)
    dropCandidate
    return false
  | some c =>
    if c = '%' && s.column = 0 then directive
    else if s.column = 0 && (← atMark "---") then documentMark .documentStart
    else if s.column = 0 && (← atMark "...") then documentMark .documentEnd
    else if c = '[' then flowStart .flowSequenceStart
    else if c = '\x7b' then flowStart .flowMappingStart
    else if c = ']' then flowEnd .flowSequenceEnd
    else if c = '\x7d' then flowEnd .flowMappingEnd
    else if c = ',' then flowEntry
    else if c = '-' && isGap next then blockEntry
    else if c = '?' && (inFlow || isGap next) then explicitKey
    else if c = ':' && (inFlow || isGap next) then valueMark
    else if c = '*' then node (do return .reference (← anchorName))
    else if c = '&' then node (do return .anchor (← anchorName))
    else if c = '!' then node (do return .tag (← tag))
    else if (c = '|' || c = '>') && !inFlow then
      allowKey true
      dropCandidate
      emit (.scalar (← blockScalar (c = .char '>')) false)
    else if c = '\'' || c = '"' then node (quotedScalar c)
    else if !(isGap (some c) || indicators.any fun m => c = .char m) ||
        (!isGap next && (c = '-' || (!inFlow && (c = '?' || c = ':')))) then
      node plainScalar
    else malformed
    return true

def allTokens (fuel : Nat) : Scan Unit := do
  match fuel with
  | 0 => return
  | fuel + 1 => if ← nextToken then allTokens fuel

/-- The tokens of a text. -/
def tokens (text : Text) : Except YamlFault (List Token) :=
  if !text.all isPrintable then .error .malformed
  else
    let body := (Text.after? ['\uFEFF'] text).getD text
    ((allTokens (2 * text.length + 2)).run (.start body)).map fun (_, s) => s.tokens

end ViewMarkup.Yaml
