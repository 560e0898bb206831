import ViewMarkup.Text.Basic
import ViewMarkup.Text.Numeral

/-!
# Arguments of the command

An argument is an option if it starts with a dash.  Long options can be shortened as long as only
one option is meant, and take a value after `=` or in the next argument.  Short options can be
written together.  After `--` nothing is an option.

The arguments are first told apart, so an ambiguous option is found before any is obeyed; then they
are obeyed from left to right.
-/

namespace ViewMarkup.Command

/-- The options of the command. -/
inductive Flag where
  | help
  | version
  | inputFile
  | platform
  | appRoot
  | lenient
  | optionsFile
  | verbosity
  /-- An option that has no effect. -/
  | idle
  deriving DecidableEq

namespace Flag

/-- Whether a value belongs to an option. -/
def takesValue : Flag → Bool
  | inputFile | platform | appRoot | optionsFile => true
  | _ => false

/-- All ways to write an option. -/
def spellings : List (String × Flag) :=
  [("-h", help), ("--help", help), ("--inputFile", inputFile), ("--platform", platform),
   ("--appPath", appRoot), ("--lenient", lenient), ("--optionsFile", optionsFile),
   ("-v", verbosity), ("--verbosity", verbosity), ("-V", version), ("--version", version),
   ("--saveinputmeta", idle), ("--saveoutputmeta", idle)]

/-- The option with a spelling. -/
def ofSpelling? (t : Text) : Option Flag :=
  spellings.findSome? fun (spelling, flag) =>
    if t = Text.ofString spelling then some flag else none

/-- The options whose long spelling starts with a text. -/
def startingWith (t : Text) : List Flag :=
  spellings.filterMap fun (spelling, flag) =>
    if Text.startsWith spelling t then some flag else none

end Flag

/-- What an argument is. -/
inductive Argument where
  | plain (text : Text)
  /-- The mark after which nothing is an option. -/
  | divider
  /-- A long option, with the value behind its `=`. -/
  | long (flag : Flag) (value : Option Text)
  /-- A short option, with what is written right behind it. -/
  | short (flag : Flag) (behind : Text)
  | unknown

/-- Whether an argument is a negative number. -/
def isNegativeNumber (t : Text) : Bool :=
  match t with
  | .char '-' :: rest =>
    let rest := if rest.getLast? = some '\n' then rest.dropLast else rest
    let digits (t : Text) : Bool := t.all CodePoint.isDigit
    match Text.cut? "." rest with
    | some (whole, places) => digits whole && !places.isEmpty && digits places
    | none => !rest.isEmpty && digits rest
  | _ => false

/-- What an argument that starts with a dash is if it is no option. -/
def Argument.ofStrange (t : Text) : Argument :=
  if isNegativeNumber t || t.contains ' ' then .plain t else .unknown

/-- An argument in front of the divider; nothing if it could be more than one option. -/
def Argument.ofText? (t : Text) : Option Argument :=
  match t with
  | .char '-' :: .char '-' :: _ =>
    let (name, value) := match Text.cut? "=" t with
      | some (name, value) => (name, some value)
      | none => (t, none)
    match (Flag.ofSpelling? t, Flag.ofSpelling? name) with
    | (some flag, _) => some (.long flag none)
    | (none, some flag) => some (.long flag value)
    | (none, none) =>
      match Flag.startingWith name with
      | [] => some (ofStrange t)
      | [flag] => some (.long flag value)
      | _ => none
  | .char '-' :: c :: behind =>
    match Flag.ofSpelling? [.char '-', c] with
    | none => some (ofStrange t)
    | some flag => some (.short flag behind)
  | t => some (.plain t)

/-- Tells arguments apart. -/
def Argument.ofTexts? : List Text → Option (List Argument)
  | [] => some []
  | t :: rest =>
    if t = Text.ofString "--" then some (.divider :: rest.map .plain)
    else do
      let argument ← ofText? t
      return argument :: (← ofTexts? rest)

/-- What the command is told to do. -/
structure Request where
  inputDir : Text
  outputDir : Text
  inputFile : Text
  platform : Option Text
  appRoot : Option Text
  lenient : Bool
  optionsFile : Option Text
  verbosity : Nat
  deriving DecidableEq

/-- What the arguments come to. -/
inductive Reading where
  | request (request : Request)
  | help
  | version
  /-- The arguments are wrong. -/
  | usage
  deriving DecidableEq

/-- The state of reading arguments. -/
structure Partial where
  /-- The arguments that are not options, the last one first. -/
  places : List Text
  /-- An argument belongs nowhere. -/
  surplus : Bool
  /-- The last argument was a place. -/
  afterPlace : Bool
  request : Request

namespace Partial

/-- Nothing has been read. -/
def start : Partial :=
  ⟨[], false, false, ⟨[], [], [], none, none, false, none, 1⟩⟩

/-- Obeys an option without a value. -/
def obey (state : Partial) (flag : Flag) : Partial :=
  let request := match flag with
    | .lenient => { state.request with lenient := true }
    | .verbosity => { state.request with verbosity := state.request.verbosity + 1 }
    | _ => state.request
  { state with request, afterPlace := false }

/-- Obeys an option with a value. -/
def obeyValue (state : Partial) (flag : Flag) (value : Text) : Partial :=
  let request := match flag with
    | .inputFile => { state.request with inputFile := value }
    | .platform => { state.request with platform := some value }
    | .appRoot => { state.request with appRoot := some value }
    | .optionsFile => { state.request with optionsFile := some value }
    | _ => state.request
  { state with request, afterPlace := false }

/-- Takes an argument that is not an option. -/
def take (state : Partial) (t : Text) : Partial :=
  if state.places.length < 2 then { state with places := t :: state.places, afterPlace := true }
  else { state with surplus := true, afterPlace := false }

/-- Takes the divider, which must have a place before or after it. -/
def divide (state : Partial) : Partial :=
  { state with surplus := state.surplus || (state.places.length = 2 && !state.afterPlace) }

/-- What has been read comes to a request if both places are there and nothing else. -/
def finish (state : Partial) : Reading :=
  match state.places with
  | [outputDir, inputDir] =>
    if state.surplus then .usage else .request { state.request with inputDir, outputDir }
  | _ => .usage

end Partial

/-- The options that are written together, one after the other, and whether something follows them
that is no option.  None of them takes a value, so a value is refused, and so is a dash. -/
def cluster? (flag : Flag) : (behind : Text) → Option (List Flag × Bool)
  | [] => some ([flag], false)
  | c :: behind =>
    if c = '=' || c = '-' then none
    else
      match Flag.ofSpelling? [.char '-', c] with
      | none => some ([flag], true)
      | some next => (cluster? next behind).map fun (flags, surplus) => (flag :: flags, surplus)

/-- Obeys options without a value up to one that ends everything. -/
def obeyAll (state : Partial) : List Flag → Except Reading Partial
  | [] => .ok state
  | .help :: _ => .error .help
  | .version :: _ => .error .version
  | flag :: rest => obeyAll (state.obey flag) rest

/-- Obeys the arguments from left to right. -/
def obeyArguments (state : Partial) : List Argument → Reading
  | [] => state.finish
  | .plain t :: rest => obeyArguments (state.take t) rest
  | .divider :: rest => obeyArguments state.divide rest
  | .unknown :: rest => obeyArguments { state with surplus := true, afterPlace := false } rest
  | .long flag (some value) :: rest =>
    if flag.takesValue then obeyArguments (state.obeyValue flag value) rest else .usage
  | .long flag none :: rest =>
    if flag.takesValue then
      match rest with
      | .plain value :: rest => obeyArguments (state.obeyValue flag value) rest
      | _ => .usage
    else
      match obeyAll state [flag] with
      | .ok state => obeyArguments state rest
      | .error reading => reading
  | .short flag behind :: rest =>
    match cluster? flag behind with
    | none => .usage
    | some (flags, surplus) =>
      match obeyAll { state with surplus := state.surplus || surplus } flags with
      | .ok state => obeyArguments state rest
      | .error reading => reading

/-- Reads the arguments of the command. -/
def read (arguments : List Text) : Reading :=
  match Argument.ofTexts? arguments with
  | none => .usage
  | some arguments => obeyArguments .start arguments

end ViewMarkup.Command
