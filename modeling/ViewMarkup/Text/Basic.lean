import ViewMarkup.Text.CodePoint

/-!
# Cutting and joining texts

The operations on texts that every other part shares: what follows a given opening, where a
separator first occurs, joining with a separator, and decimal numerals.

* `Text.after?_eq_some_iff` and `Text.cut?_append` say that cutting loses nothing.
-/

namespace ViewMarkup.Text

/-- What follows `lead` at the start of a text. -/
def after? : (lead : Text) → Text → Option Text
  | [], t => some t
  | _ :: _, [] => none
  | a :: lead, b :: t => if a = b then after? lead t else none

theorem after?_eq_some_iff {lead t rest : Text} : after? lead t = some rest ↔ t = lead ++ rest := by
  induction lead generalizing t with
  | nil => simp [after?]
  | cons a lead ih =>
      cases t with
      | nil => simp [after?]
      | cons b t =>
          by_cases h : a = b
          · simp [after?, h, ih]
          · simp [after?, h, Ne.symm h]

/-- Whether a text starts with `lead`. -/
def startsWith (t lead : Text) : Bool :=
  (after? lead t).isSome

/-- Whether a text ends with `tail`. -/
def endsWith (t tail : Text) : Bool :=
  startsWith t.reverse tail.reverse

/-- What stands before and after the first occurrence of `mark`. -/
def cut? (mark : Text) : Text → Option (Text × Text)
  | [] => (after? mark []).map fun rest => ([], rest)
  | c :: t =>
    match after? mark (c :: t) with
    | some rest => some ([], rest)
    | none => (cut? mark t).map fun (before, rest) => (c :: before, rest)

theorem cut?_append {mark t before rest : Text} (h : cut? mark t = some (before, rest)) :
    t = before ++ mark ++ rest := by
  induction t generalizing before with
  | nil =>
      obtain ⟨r, hr, heq⟩ := Option.map_eq_some_iff.mp h
      cases heq
      simpa using after?_eq_some_iff.mp hr
  | cons c t ih =>
      rw [cut?] at h
      split at h
      · next r hr =>
          cases h
          simpa using after?_eq_some_iff.mp hr
      · obtain ⟨⟨b, r⟩, hr, heq⟩ := Option.map_eq_some_iff.mp h
        cases heq
        simp [ih hr]

/-- The pieces of a text between the occurrences of one code point; there is always one piece. -/
def splitOn (mark : CodePoint) : Text → List Text
  | [] => [[]]
  | c :: t =>
    if c = mark then
      [] :: splitOn mark t
    else
      match splitOn mark t with
      | [] => [[c]]
      | piece :: pieces => (c :: piece) :: pieces

/-- The texts one after the other, with `mark` between neighbours. -/
def join (mark : Text) (parts : List Text) : Text :=
  List.intercalate mark parts

/-- The decimal numeral of a number. -/
def ofNat (n : Nat) : Text :=
  (Nat.toDigits 10 n).map .char

/-- The decimal numeral of an integer, with a sign if it is negative. -/
def ofInt : Int → Text
  | .ofNat n => ofNat n
  | .negSucc n => '-' :: ofNat (n + 1)

/-- Whether a text comes no later than another in the order of code points. -/
def le : Text → Text → Bool
  | [], _ => true
  | _ :: _, [] => false
  | a :: s, b :: t => decide (a.toNat < b.toNat) || (decide (a = b) && le s t)

/-- Texts in the order of code points. -/
def sorted (texts : List Text) : List Text :=
  texts.mergeSort le

/-- A text whose lines all end with a line feed: a carriage return ends a line too, alone or before
a line feed. -/
def unifyLineEnds : Text → Text
  | [] => []
  | .char '\r' :: .char '\n' :: t => .char '\n' :: unifyLineEnds t
  | .char '\r' :: t => .char '\n' :: unifyLineEnds t
  | c :: t => c :: unifyLineEnds t

/-- A text between parentheses. -/
def parenthesized (t : Text) : Text :=
  "(" ++ t ++ ")"

end ViewMarkup.Text
