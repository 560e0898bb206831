import ViewMarkup.Text.Basic
import ViewMarkup.Text.Blank

/-!
# Files of variables

A file of variables has a line `NAME=value` for each, perhaps after the word `export`.  A value may
stand in quotes and then hold line ends; otherwise a `#` after a blank starts a comment.  A name
alone has no value.  Lines that are written otherwise are passed over, and so is a byte order mark
at the start.

In a value, `${NAME}` stands for the value of another variable, and `${NAME:-default}` also says
what it stands for if there is none.
-/

namespace ViewMarkup.VariableFile

/-- Blanks within a line. -/
def isLineBlank (c : CodePoint) : Bool :=
  c.isBlank && c != .char '\n' && c != .char '\r'

def isLineEnd (c : CodePoint) : Bool :=
  c = '\n' || c = '\r'

/-- What is left after the end of the line. -/
def dropLine (t : Text) : Text :=
  match t.dropWhile fun c => !isLineEnd c with
  | .char '\r' :: .char '\n' :: rest => rest
  | _ :: rest => rest
  | [] => []

/-- Splits a text behind a quote in front at the quote that closes it.  A backslash takes the
character behind it along, so that a quote there does not close. -/
def closeQuote? (quote : CodePoint) : Text → Option (Text × Text)
  | [] => none
  | .char '\\' :: c :: rest =>
    (closeQuote? quote rest).map fun (inside, rest) => (.char '\\' :: c :: inside, rest)
  | c :: rest =>
    if c = quote then some ([], rest)
    else (closeQuote? quote rest).map fun (inside, rest) => (c :: inside, rest)

/-- The escapes in single and in double quotes. -/
def escapes (quote : CodePoint) : List (Char × Char) :=
  [('\\', '\\'), ('\'', '\'')] ++
    if quote = '"' then
      [('"', '"'), ('a', '\x07'), ('b', '\x08'), ('f', '\x0c'), ('n', '\n'), ('r', '\r'),
       ('t', '\t'), ('v', '\x0b')]
    else []

def decode (quote : CodePoint) : Text → Text
  | [] => []
  | .char '\\' :: .char c :: rest =>
    match (escapes quote).lookup c with
    | some meant => .char meant :: decode quote rest
    | none => .char '\\' :: decode quote (.char c :: rest)
  | c :: rest => c :: decode quote rest

/-- A value without quotes, up to the comment on its line. -/
def dropComment : Text → Text
  | [] => []
  | c :: rest =>
    if c.isBlank && (rest.dropWhile CodePoint.isBlank).head? = some '#' then []
    else c :: dropComment rest

/-- The value behind an equals sign, and what follows.  Blanks before it are no part of it, but
they let a `#` start a comment there. -/
def value? (t : Text) : Option (Text × Text) :=
  match t.dropWhile isLineBlank with
  | quote :: rest =>
    if quote = '\'' || quote = '"' then
      (closeQuote? quote rest).map fun (inside, rest) => (decode quote inside, rest)
    else
      let line := t.takeWhile fun c => !isLineEnd c
      some ((dropComment line).trim, t.drop line.length)
  | [] => some ([], [])

/-- A name in front, and what follows. -/
def name? (t : Text) : Option (Text × Text) :=
  match t with
  | .char '\'' :: rest =>
    let name := rest.takeWhile fun c => c != .char '\''
    match rest.drop name.length with
    | _ :: rest => if name.isEmpty then none else some (name, rest)
    | [] => none
  | t =>
    let name := t.takeWhile fun c => !(c = .char '=' || c = .char '#' || c.isBlank)
    if name.isEmpty then none else some (name, t.drop name.length)

/-- A line without the word `export`. -/
def dropExport (t : Text) : Text :=
  match Text.after? "export" t with
  | some rest => if rest.head?.any isLineBlank then rest.dropWhile isLineBlank else t
  | none => t

/-- What is left after blanks, a comment and the end of a line, if nothing else stands there. -/
def lineEnd? (t : Text) : Option Text :=
  let t := t.dropWhile isLineBlank
  let t := if t.head? = some '#' then t.dropWhile fun c => !isLineEnd c else t
  match t with
  | [] => some []
  | c :: _ => if isLineEnd c then some (dropLine t) else none

/-- A line that starts with no blank: the variable it sets, if it does, and what follows. -/
def line (t : Text) : Option (Text × Option Text) × Text :=
  if t.head? = some '#' then (none, dropLine t)
  else
    let body := dropExport t
    match name? body with
    | none => (none, dropLine body)
    | some (name, rest) =>
      match rest.dropWhile isLineBlank with
      | .char '=' :: rest =>
        match value? rest with
        | none => (none, dropLine rest)
        | some (value, rest) =>
          match lineEnd? rest with
          | some rest => (some (name, some value), rest)
          | none => (none, dropLine rest)
      | rest =>
        match lineEnd? rest with
        | some rest => (some (name, none), rest)
        | none => (none, dropLine rest)

/-- The variables of a text in order, each with its value if it has one. -/
def lines (fuel : Nat) (t : Text) : List (Text × Option Text) :=
  match fuel with
  | 0 => []
  | fuel + 1 =>
    match t.dropWhile CodePoint.isBlank with
    | [] => []
    | c :: rest =>
      let (found, rest) := line (c :: rest)
      found.toList ++ lines fuel rest

/-- The value of a variable, or what stands for it if there is none. -/
def variableValue (known : List (Text × Option Text)) (inside : Text) : Text :=
  let name := inside.takeWhile fun c => c != .char ':'
  let otherwise := (Text.after? ":-" (inside.drop name.length)).getD []
  match known.lookup name with
  | some value => value.getD []
  | none => otherwise

/-- Whether the inside of a reference to a variable is well written. -/
def isReference (inside : Text) : Bool :=
  let rest := inside.dropWhile fun c => c != .char ':'
  rest.isEmpty || Text.startsWith rest ":-"

/-- Replaces the references to variables in a value. -/
def interpolate (known : List (Text × Option Text)) (fuel : Nat) (t : Text) : Text :=
  match fuel with
  | 0 => t
  | fuel + 1 =>
    match t with
    | [] => []
    | .char '$' :: .char '\x7b' :: rest =>
      let inside := rest.takeWhile fun c => c != .char '\x7d'
      match rest.drop inside.length with
      | _ :: after =>
        if isReference inside then variableValue known inside ++ interpolate known fuel after
        else .char '$' :: interpolate known fuel (.char '\x7b' :: rest)
      | [] => t
    | c :: rest => c :: interpolate known fuel rest

/-- Replaces the references in the values of variables one after the other.  A variable of the file
that is already known, the latest first, comes before one of the environment. -/
def resolve (environment : List (Text × Text)) :
    (known : List (Text × Option Text)) → List (Text × Option Text) → List (Text × Option Text)
  | _, [] => []
  | known, (name, value) :: rest =>
    let scope := known ++ environment.map fun (name, value) => (name, some value)
    let value := value.map fun value => interpolate scope value.length value
    (name, value) :: resolve environment ((name, value) :: known) rest

/-- Sets a variable.  A name that is already there keeps its place and takes the new value. -/
def assign (name : Text) (value : Option Text) :
    List (Text × Option Text) → List (Text × Option Text)
  | [] => [(name, value)]
  | item :: rest =>
    if item.1 = name then (name, value) :: rest else item :: assign name value rest

/-- A text without the byte order mark in front, if there is one. -/
def dropOrderMark (t : Text) : Text :=
  (Text.after? "\ufeff" t).getD t

/-- The variables of a file, given those of the environment. -/
def read (environment : List (Text × Text)) (source : Text) : List (Text × Option Text) :=
  let source := (dropOrderMark source).unifyLineEnds
  (resolve environment [] (lines source.length source)).foldl
    (fun assigned (name, value) => assign name value assigned) []

end ViewMarkup.VariableFile
