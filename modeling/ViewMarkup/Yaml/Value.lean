import ViewMarkup.Number.Basic
import ViewMarkup.Yaml.Moment

/-!
# Values of YAML documents

* `Yaml.display` writes a value on one line.
-/

namespace ViewMarkup

/-- A value of a YAML document. -/
inductive Yaml where
  | null
  | boolean (value : Bool)
  | number (value : Number)
  | text (value : Text)
  | date (value : Date)
  | moment (value : Moment)
  | list (items : List Yaml)
  /-- A mapping in document order. -/
  | map (entries : List (Yaml × Yaml))
  deriving Inhabited

/-- Why a text is not a YAML document. -/
inductive YamlFault where
  | malformed
  /-- A number cannot be read, there is no such day, or an escape names no character. -/
  | badNumber
  /-- A scalar is tagged as a number, and nothing is there but perhaps a sign. -/
  | noNumber
  /-- A scalar is tagged as a truth value, and is none. -/
  | notTruth
  /-- A scalar is tagged as a moment, and is not written as one. -/
  | notMoment
  deriving DecidableEq

namespace Yaml

/-- Whether a value counts as true: all do but nothing, false, zero and what is empty. -/
def isTruthy : Yaml → Bool
  | null => false
  | boolean value => value
  | number (.int n) => n != 0
  | number (.float x) => x.magnitudeBits != 0
  | text value => !value.isEmpty
  | date _ | moment _ => true
  | list items => !items.isEmpty
  | map entries => !entries.isEmpty

/-- A text between quotes: single ones, unless it holds a single and no double one. -/
def quoted (t : Text) : Text :=
  let single := !(t.contains (.char '\'') && !t.contains (.char '"'))
  let mark : CodePoint := if single then '\'' else '"'
  let escape (c : CodePoint) : Text :=
    if c = '\\' then "\\\\"
    else if c = '\n' then "\\n"
    else if c = '\r' then "\\r"
    else if c = '\t' then "\\t"
    else if c = '\'' && single then "\\'"
    else if c.toNat < 32 || (127 ≤ c.toNat && c.toNat ≤ 160) || c.toNat = 173 then
      "\\x" ++ (if c.toNat < 16 then "0" else "") ++ (Nat.toDigits 16 c.toNat).map CodePoint.char
    else [c]
  mark :: (t.flatMap escape ++ [mark])

mutual

/-- A value on one line, as it is shown inside another. -/
def displayInner : Yaml → Text
  | null => "None"
  | boolean value => if value then "True" else "False"
  | number (.int n) => Text.ofInt n
  | number (.float x) => FloatLayout.standard.write x
  | text value => quoted value
  | date value => value.display
  | moment value => value.display
  | list items => "[" ++ Text.join ", " (displayItems items) ++ "]"
  | map entries => "\x7b" ++ Text.join ", " (displayEntries entries) ++ "\x7d"

def displayItems : List Yaml → List Text
  | [] => []
  | item :: rest => displayInner item :: displayItems rest

def displayEntries : List (Yaml × Yaml) → List Text
  | [] => []
  | (key, value) :: rest => (displayInner key ++ ": " ++ displayInner value) :: displayEntries rest

end

/-- A value on one line; a text, a day and a moment are shown as they are. -/
def display : Yaml → Text
  | text value => value
  | date value => value.text
  | moment value => value.text
  | value => displayInner value

end Yaml

end ViewMarkup
