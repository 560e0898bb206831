import ViewMarkup.Options
import ViewMarkup.Xml.Fault
import ViewMarkup.Xml.Name

/-!
# Reading markup

A reader goes over the text of a document one character at a time.  Its mode says what it is in the
middle of; a character moves it to another mode, completes a tag, or shows that the text is not
well-formed.

The reader starts inside an element, whose opening tag is not part of the text, and it must find
the tag that closes this element.  So several elements may stand side by side.  Only tags yield
events.  Character data, comments, processing instructions and sections are checked and dropped.

* `Xml.read` gives the events of a text up to its end or its first fault.
* A fault is placed at the offending character, or at the start of the construct it is found in.
-/

namespace ViewMarkup.Xml

/-- A place in the text: the offset in bytes, the line from one on and the column from zero on. -/
structure Mark where
  offset : Nat
  line : Nat
  column : Nat
  /-- The character before was a carriage return, so a line feed here belongs to it. -/
  afterReturn : Bool
  deriving DecidableEq

namespace Mark

/-- The start of a text. -/
def start : Mark :=
  ⟨0, 1, 0, false⟩

/-- The place after one more character. -/
def advance (mark : Mark) (c : CodePoint) : Mark :=
  let offset := mark.offset + c.utf8Size
  if c = '\r' then ⟨offset, mark.line + 1, 0, true⟩
  else if c = '\n' then ⟨offset, if mark.afterReturn then mark.line else mark.line + 1, 0, false⟩
  else ⟨offset, mark.line, mark.column + 1, false⟩

/-- The place of the name in a closing tag that starts here. -/
def endTagName (mark : Mark) : Mark :=
  (mark.advance '<').advance '/'

end Mark

/-- A tag that has been read. -/
inductive Event where
  | startTag (offset : Nat) (name : Text) (attributes : AttributeMap)
  | endTag (offset : Nat) (name : Text)
  deriving DecidableEq

/-- A piece of the value of an attribute. -/
inductive Piece where
  | point (c : CodePoint)
  /-- A blank, which counts as a space; a line feed after a carriage return belongs to it. -/
  | blank (isReturn : Bool)
  | number (mark : Mark) (n : Nat)
  | entity (name : Text)

/-- An attribute as read. -/
structure RawAttribute where
  mark : Mark
  name : Text
  pieces : List Piece

/-- A tag of which the name and some attributes have been read. -/
structure PartialTag where
  name : Text
  attributes : List RawAttribute

/-- How far a reference has been read. -/
inductive Reference where
  | ampersand
  | entity (name : Text)
  | hash
  | decimal (n : Nat)
  | hexMark
  | hexadecimal (n : Nat)

/-- What a reader is in the middle of. -/
inductive Mode where
  /-- Character data, after so many closing brackets. -/
  | content (brackets : Nat)
  | contentReference (reference : Reference)
  /-- After `<`. -/
  | markup
  /-- After `<!`. -/
  | exclamation
  /-- After `<!-`. -/
  | commentStart
  /-- In a comment, after so many dashes. -/
  | comment (dashes : Nat)
  /-- Before the rest of the opening of a section. -/
  | sectionStart (rest : Text)
  /-- In a section, after so many closing brackets. -/
  | inSection (brackets : Nat)
  /-- After `<?`. -/
  | instruction
  | instructionTarget (name : Text)
  /-- After the question mark that directly follows a target. -/
  | instructionEnd (isDeclaration : Bool)
  | instructionBody (isDeclaration afterQuestion : Bool)
  /-- After `</`. -/
  | endTag
  | endTagName (name : Text)
  | endTagBlank (name : Text)
  | tagName (name : Text)
  | tagBlank (tag : PartialTag)
  /-- After the slash at the end of a tag. -/
  | tagSlash (tag : PartialTag)
  | attributeName (tag : PartialTag) (mark : Mark) (name : Text)
  | beforeEquals (tag : PartialTag) (mark : Mark) (name : Text)
  | afterEquals (tag : PartialTag) (mark : Mark) (name : Text)
  | value (tag : PartialTag) (item : RawAttribute) (quote : CodePoint)
  | valueReference (tag : PartialTag) (item : RawAttribute) (quote : CodePoint) (mark : Mark)
      (reference : Reference)
  | afterValue (tag : PartialTag)
  /-- After the end of the element, where only blanks, comments and instructions may stand. -/
  | after
  | afterMarkup
  | afterExclamation
  | declarationName
  | declarationPercent (mark : Mark)
  | literal (quote : CodePoint)
  | literalEnd
  | percent
  | percentName
  | pound
  | poundName
  | token (isName : Bool)
  | closeParenthesis

/-- A place at which something is wrong. -/
structure Misread where
  fault : XmlFault
  mark : Mark

/-- What a character does. -/
inductive Move where
  | to (mode : Mode)
  | tags (events : List Event) (names : List Text)
  | fault (misread : Misread)

/-- A reader of markup. -/
structure Reader where
  mode : Mode
  /-- Where the construct that is being read starts. -/
  start : Mark
  /-- The place of the next character. -/
  mark : Mark
  /-- The names of the open elements, the innermost first. -/
  names : List Text

/-- The character that an entity stands for without any declaration. -/
def predefined? (name : Text) : Option CodePoint :=
  if name = Text.ofString "lt" then some '<'
  else if name = Text.ofString "gt" then some '>'
  else if name = Text.ofString "amp" then some '&'
  else if name = Text.ofString "quot" then some '"'
  else if name = Text.ofString "apos" then some '\''
  else none

/-- The character with a number, if a document may hold it. -/
def charOfNumber? (n : Nat) : Option CodePoint :=
  if isCharNumber n then CodePoint.ofNat? n else none

/-- The text that the pieces of a value stand for.  A faulty number is placed where it stands, an
unknown entity at the start of the tag. -/
def valueText (start : Mark) : List Piece → Except Misread Text
  | [] => .ok []
  | piece :: rest => do
    let c ← match piece with
      | .point c => .ok c
      | .blank _ => .ok (.char ' ')
      | .number mark n =>
        match charOfNumber? n with
        | some c => .ok c
        | none => .error ⟨.invalidCharacterNumber, mark⟩
      | .entity name =>
        match predefined? name with
        | some c => .ok c
        | none => .error ⟨.undefinedEntity, start⟩
    return c :: (← valueText start rest)

/-- The attributes of a tag, which must have different names. -/
def attributeMap (start : Mark) (known : List Text) :
    List RawAttribute → Except Misread AttributeMap
  | [] => .ok []
  | item :: rest => do
    if known.contains item.name then throw ⟨.duplicateAttribute, item.mark⟩
    let value ← valueText start item.pieces
    return (item.name, value) :: (← attributeMap start (item.name :: known) rest)

namespace Reader

/-- A reader at the start of the inside of an element. -/
def inside (name : Text) : Reader :=
  ⟨.content 0, .start, .start, [name]⟩

/-- The fault of a character that cannot stand where it stands. -/
def invalid (r : Reader) : Move :=
  .fault ⟨.invalidToken, r.mark⟩

/-- The fault of something after the end of the element. -/
def junk (r : Reader) : Move :=
  .fault ⟨.junkAfterDocument, r.start⟩

/-- The mode between two constructs. -/
def resting (r : Reader) : Mode :=
  if r.names.isEmpty then .after else .content 0

/-- A character that may be any that a document can hold. -/
def anyChar (r : Reader) (c : CodePoint) (mode : Mode) : Move :=
  if isChar c then .to mode else r.invalid

/-- Completes an opening tag; `isEmpty` says that it closes itself. -/
def completeTag (r : Reader) (tag : PartialTag) (isEmpty : Bool) : Move :=
  match attributeMap r.start [] tag.attributes with
  | .error misread => .fault misread
  | .ok attributes =>
    let opened := Event.startTag r.start.offset tag.name attributes
    if isEmpty then .tags [opened, .endTag (r.mark.advance '>').offset tag.name] r.names
    else .tags [opened] (tag.name :: r.names)

/-- Completes a closing tag, which must fit the innermost open element.  The tag that closes the
element around everything is no event. -/
def completeEndTag (r : Reader) (name : Text) : Move :=
  match r.names with
  | [] => r.junk
  | top :: below =>
    if top ≠ name then .fault ⟨.mismatchedTag, r.start.endTagName⟩
    else if below.isEmpty then .tags [] below
    else .tags [.endTag r.start.offset name] below

/-- One more character of a reference.  A reference ends with a semicolon. -/
inductive ReferenceMove where
  | more (reference : Reference)
  | entity (name : Text)
  | number (n : Nat)
  | invalid

def digit? (base : Nat) (c : CodePoint) : Option Nat :=
  let n := c.toNat
  let value :=
    if 48 ≤ n && n ≤ 57 then some (n - 48)
    else if 97 ≤ n && n ≤ 102 then some (n - 87)
    else if 65 ≤ n && n ≤ 70 then some (n - 55)
    else none
  value.filter (· < base)

def referenceMove (c : CodePoint) : Reference → ReferenceMove
  | .ampersand =>
    if c = '#' then .more .hash
    else if isNameStart c then .more (.entity [c])
    else .invalid
  | .entity name =>
    if c = ';' then .entity name
    else if isNameChar c then .more (.entity (name ++ [c]))
    else .invalid
  | .hash =>
    if c = 'x' then .more .hexMark
    else
      match digit? 10 c with
      | some d => .more (.decimal d)
      | none => .invalid
  | .decimal n =>
    if c = ';' then .number n
    else
      match digit? 10 c with
      | some d => .more (.decimal (n * 10 + d))
      | none => .invalid
  | .hexMark =>
    match digit? 16 c with
    | some d => .more (.hexadecimal d)
    | none => .invalid
  | .hexadecimal n =>
    if c = ';' then .number n
    else
      match digit? 16 c with
      | some d => .more (.hexadecimal (n * 16 + d))
      | none => .invalid

/-- Whether a target is that of a declaration. -/
def isDeclaration (name : Text) : Bool :=
  name = Text.ofString "xml"

/-- Whether a target is a declaration in the wrong case, which is not allowed. -/
def isReserved (name : Text) : Bool :=
  !isDeclaration name && name.flatMap CodePoint.lower = Text.ofString "xml" &&
    name.all fun c => decide (c.toNat < 128)

/-- Completes an instruction. -/
def completeInstruction (r : Reader) (isDeclaration : Bool) : Move :=
  if !isDeclaration then .to r.resting
  else if r.names.isEmpty then r.junk
  else .fault ⟨.misplacedDeclaration, r.start⟩

/-- A character after the name or an attribute of a tag. -/
def tagMove (r : Reader) (tag : PartialTag) (c : CodePoint) (other : Move) : Move :=
  if isBlank c then .to (.tagBlank tag)
  else if c = '>' then r.completeTag tag false
  else if c = '/' then .to (.tagSlash tag)
  else other

/-- A character in the value of an attribute. -/
def valueMove (r : Reader) (tag : PartialTag) (item : RawAttribute) (quote c : CodePoint) : Move :=
  let push (piece : Piece) : Move :=
    .to (.value tag { item with pieces := item.pieces ++ [piece] } quote)
  if c = quote then
    .to (.afterValue { tag with attributes := tag.attributes ++ [item] })
  else if c = '&' then .to (.valueReference tag item quote r.mark .ampersand)
  else if c = '<' then r.invalid
  else if c = '\r' then push (.blank true)
  else if c = '\n' then
    match item.pieces.getLast? with
    | some (.blank true) =>
      .to (.value tag { item with pieces := item.pieces.dropLast ++ [.blank false] } quote)
    | _ => push (.blank false)
  else if c = '\t' then push (.blank false)
  else if isChar c then push (.point c)
  else r.invalid

/-- A character after the end of the element. -/
def afterMove (r : Reader) (c : CodePoint) : Move :=
  if isBlank c then .to .after
  else if c = '<' then .to .afterMarkup
  else if c = '"' || c = '\'' then .to (.literal c)
  else if c = '%' then .to .percent
  else if c = '#' then .to .pound
  else if c = ')' then .to .closeParenthesis
  else if [',', '[', ']', '(', '|', '>'].any fun m => c = .char m then
    .fault ⟨.junkAfterDocument, r.mark⟩
  else if isNameStart c then .to (.token true)
  else if isNameChar c then .to (.token false)
  else r.invalid

/-- What a character does to a reader. -/
def move (r : Reader) (c : CodePoint) : Move :=
  match r.mode with
  | .content brackets =>
    if c = '<' then .to .markup
    else if c = '&' then .to (.contentReference .ampersand)
    else if c = ']' then .to (.content (brackets + 1))
    else if c = '>' && 2 ≤ brackets then r.invalid
    else r.anyChar c (.content 0)
  | .contentReference reference =>
    match referenceMove c reference with
    | .more reference => .to (.contentReference reference)
    | .entity name =>
      if (predefined? name).isSome then .to (.content 0) else .fault ⟨.undefinedEntity, r.start⟩
    | .number n =>
      if isCharNumber n then .to (.content 0) else .fault ⟨.invalidCharacterNumber, r.start⟩
    | .invalid => r.invalid
  | .markup =>
    if c = '!' then .to .exclamation
    else if c = '?' then .to .instruction
    else if c = '/' then .to .endTag
    else if isNameStart c then .to (.tagName [c])
    else r.invalid
  | .exclamation =>
    if c = '-' then .to .commentStart
    else if c = '[' then .to (.sectionStart "CDATA[")
    else r.invalid
  | .commentStart => if c = '-' then .to (.comment 0) else r.invalid
  | .comment dashes =>
    if 2 ≤ dashes then if c = '>' then .to r.resting else r.invalid
    else if c = '-' then .to (.comment (dashes + 1))
    else r.anyChar c (.comment 0)
  | .sectionStart rest =>
    match rest with
    | [] => r.invalid
    | expected :: rest =>
      if c ≠ expected then r.invalid
      else if rest.isEmpty then .to (.inSection 0)
      else .to (.sectionStart rest)
  | .inSection brackets =>
    if c = ']' then .to (.inSection (brackets + 1))
    else if c = '>' && 2 ≤ brackets then .to r.resting
    else r.anyChar c (.inSection 0)
  | .instruction => if isNameStart c then .to (.instructionTarget [c]) else r.invalid
  | .instructionTarget name =>
    if isNameChar c then .to (.instructionTarget (name ++ [c]))
    else if (isBlank c || c = '?') && isReserved name then r.invalid
    else if isBlank c then .to (.instructionBody (isDeclaration name) false)
    else if c = '?' then .to (.instructionEnd (isDeclaration name))
    else r.invalid
  | .instructionEnd isDeclaration =>
    if c = '>' then r.completeInstruction isDeclaration else r.invalid
  | .instructionBody isDeclaration afterQuestion =>
    if c = '>' && afterQuestion then r.completeInstruction isDeclaration
    else r.anyChar c (.instructionBody isDeclaration (c = '?'))
  | .endTag => if isNameStart c then .to (.endTagName [c]) else r.invalid
  | .endTagName name =>
    if isNameChar c then .to (.endTagName (name ++ [c]))
    else if isBlank c then .to (.endTagBlank name)
    else if c = '>' then r.completeEndTag name
    else r.invalid
  | .endTagBlank name =>
    if isBlank c then .to (.endTagBlank name)
    else if c = '>' then r.completeEndTag name
    else r.invalid
  | .tagName name =>
    if isNameChar c then .to (.tagName (name ++ [c])) else r.tagMove ⟨name, []⟩ c r.invalid
  | .tagBlank tag =>
    if isNameStart c then .to (.attributeName tag r.mark [c]) else r.tagMove tag c r.invalid
  | .tagSlash tag => if c = '>' then r.completeTag tag true else r.invalid
  | .attributeName tag mark name =>
    if isNameChar c then .to (.attributeName tag mark (name ++ [c]))
    else if isBlank c then .to (.beforeEquals tag mark name)
    else if c = '=' then .to (.afterEquals tag mark name)
    else r.invalid
  | .beforeEquals tag mark name =>
    if isBlank c then .to (.beforeEquals tag mark name)
    else if c = '=' then .to (.afterEquals tag mark name)
    else r.invalid
  | .afterEquals tag mark name =>
    if isBlank c then .to (.afterEquals tag mark name)
    else if c = '"' || c = '\'' then .to (.value tag ⟨mark, name, []⟩ c)
    else r.invalid
  | .value tag item quote => r.valueMove tag item quote c
  | .valueReference tag item quote mark reference =>
    let push (piece : Piece) : Move :=
      .to (.value tag { item with pieces := item.pieces ++ [piece] } quote)
    match referenceMove c reference with
    | .more reference => .to (.valueReference tag item quote mark reference)
    | .entity name => push (.entity name)
    | .number n => push (.number mark n)
    | .invalid => r.invalid
  | .afterValue tag => r.tagMove tag c r.invalid
  | .after => r.afterMove c
  | .afterMarkup =>
    if c = '!' then .to .afterExclamation
    else if c = '?' then .to .instruction
    else if isPlainNameStart c || 128 ≤ c.toNat then r.junk
    else r.invalid
  | .afterExclamation =>
    if c = '-' then .to .commentStart
    else if c = '[' then r.junk
    else if isPlainNameStart c then .to .declarationName
    else r.invalid
  | .declarationName =>
    if c = '%' then .to (.declarationPercent r.mark)
    else if isBlank c then r.junk
    else if isPlainNameStart c then .to .declarationName
    else r.invalid
  | .declarationPercent mark =>
    if isBlank c || c = '%' then .fault ⟨.invalidToken, mark⟩ else r.junk
  | .literal quote =>
    if c = quote then .to .literalEnd else r.anyChar c (.literal quote)
  | .literalEnd => if isBlank c || c = '>' || c = '%' || c = '[' then r.junk else r.invalid
  | .percent =>
    if isNameStart c then .to .percentName
    else if isBlank c || c = '%' then r.junk
    else r.invalid
  | .percentName =>
    if isNameChar c then .to .percentName else if c = ';' then r.junk else r.invalid
  | .pound => if isNameStart c then .to .poundName else r.invalid
  | .poundName =>
    if isNameChar c then .to .poundName
    else if isBlank c || c = ')' || c = '>' || c = '%' || c = '|' then r.junk
    else r.invalid
  | .token isName =>
    if isNameChar c then .to (.token isName)
    else if isBlank c || c = '>' || c = ')' || c = ',' || c = '|' || c = '[' || c = '%' then r.junk
    else if isName && (c = '+' || c = '*' || c = '?') then r.junk
    else r.invalid
  | .closeParenthesis =>
    if isBlank c || c = '*' || c = '?' || c = '+' || c = '>' || c = ',' || c = '|' || c = ')' then
      r.junk
    else r.invalid

/-- Whether the reader is between two constructs, so that the next one starts with the next
character. -/
def isResting (r : Reader) : Bool :=
  match r.mode with
  | .content _ | .after => true
  | _ => false

/-- The reader after a character, with the events of the tag that the character completes. -/
def step (r : Reader) (c : CodePoint) : Except Misread (List Event × Reader) :=
  let start := if r.isResting then r.mark else r.start
  let mark := r.mark.advance c
  match r.move c with
  | .to mode => .ok ([], { r with mode, start, mark })
  | .tags events names =>
    let r := { r with start, mark, names }
    .ok (events, { r with mode := r.resting })
  | .fault misread => .error misread

/-- What is wrong if the text ends here. -/
def endFault? (r : Reader) : Option Misread :=
  match r.mode with
  | .after => none
  | .content _ => some ⟨.noElement, r.mark⟩
  | .inSection _ => some ⟨.unclosedCData, r.mark⟩
  | _ => some ⟨.unclosedToken, r.start⟩

/-- The events of the rest of a text, and its fault if there is one. -/
def run (r : Reader) : Text → List Event × Option Misread
  | [] => ([], r.endFault?)
  | c :: rest =>
    match r.step c with
    | .error misread => ([], some misread)
    | .ok (events, r) =>
      let (later, misread) := r.run rest
      (events ++ later, misread)

end Reader

/-- Reads the inside of an element with a name, and the tag that closes it. -/
def read (name content : Text) : List Event × Option Misread :=
  (Reader.inside name).run (content ++ "</" ++ name ++ ">")

end ViewMarkup.Xml
