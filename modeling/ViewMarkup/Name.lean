import ViewMarkup.Path
import ViewMarkup.Text.LowerCase

/-!
# Names

How the names of tags, attributes and components are taken apart and formed.
-/

namespace ViewMarkup

namespace Name

def isUpper (c : CodePoint) : Bool :=
  65 ≤ c.toNat && c.toNat ≤ 90

def isLower (c : CodePoint) : Bool :=
  97 ≤ c.toNat && c.toNat ≤ 122

/-- ASCII small letters and digits. -/
def isSmall (c : CodePoint) : Bool :=
  isLower c || (48 ≤ c.toNat && c.toNat ≤ 57)

/-- The length of the word at the start of a text; zero if none starts there.  A word is a run of
small letters and digits with at most one capital before it, or a run of capitals, of which the
last is left to the next word if a small letter follows. -/
def wordLength (t : Text) : Nat :=
  match t with
  | [] => 0
  | c :: rest =>
    if isSmall c then (t.takeWhile isSmall).length
    else if isUpper c then
      match (rest.takeWhile isSmall).length with
      | 0 =>
        let capitals := (t.takeWhile isUpper).length
        match t.drop capitals with
        | next :: _ => if isLower next then capitals - 1 else capitals
        | [] => capitals
      | n + 1 => n + 2
    else 0

/-- The words of a text. -/
def words : Text → List Text
  | [] => []
  | c :: rest =>
    match wordLength (c :: rest) with
    | 0 => words rest
    | n + 1 => (c :: rest.take n) :: words (rest.drop n)
  termination_by t => t.length
  decreasing_by
    · simp
    · simp only [List.length_drop, List.length_cons]
      omega

/-- ASCII letters in upper case. -/
def upper (c : CodePoint) : CodePoint :=
  match c with
  | .char c => .char c.toUpper
  | c => c

/-- A word with its first letter in upper case and the others in lower case. -/
def capitalize : Text → Text
  | [] => []
  | c :: rest => upper c :: rest.flatMap CodePoint.lower

/-- The words of a text, capitalized and put together. -/
def pascalCase (t : Text) : Text :=
  ((words t).map capitalize).flatten

/-- The class name of a document. -/
def component (modulePath : Text) : Text :=
  let name := pascalCase (Path.baseName (Path.dropExtension modulePath))
  if name.isEmpty then "Component" else name

/-- The local name, and what stands before the first colon. -/
def split (name : Text) : Text × Option Text :=
  match Text.cut? ":" name with
  | some (qualifier, localName) => (localName, some qualifier)
  | none => (name, none)

/-- The platforms that tags and attributes can be limited to. -/
def platforms : List Text :=
  ["android", "ios", "desktop"]

/-- Whether a name is that of a platform, in any case. -/
def isPlatform (name : Text) : Bool :=
  platforms.contains name.lower

end Name

end ViewMarkup
