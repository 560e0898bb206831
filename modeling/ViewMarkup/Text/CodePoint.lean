/-!
# Code points and texts

A text is a list of Unicode code points.  A code point is either a scalar value, which is a
`Char`, or one half of a surrogate pair standing alone: an escape sequence in a string literal
can name such a half, and it is then carried through printing and reading like any other point.

* `CodePoint.toNat` and `CodePoint.ofNat?` number the code points; `ofNat?_toNat` says that the
  number determines the point.
* `Text.ofString` embeds ordinary strings.  String literals are coerced to texts with it.
-/

namespace ViewMarkup

/-- A Unicode code point: a scalar value, or a lone surrogate `U+D800 + offset`. -/
inductive CodePoint where
  | char (c : Char)
  | surrogate (offset : Fin 2048)
  deriving DecidableEq

/-- A text is a list of code points. -/
abbrev Text := List CodePoint

instance : Coe Char CodePoint := ⟨.char⟩

instance : Inhabited CodePoint := ⟨.char ' '⟩

namespace CodePoint

/-- The number of a code point. -/
def toNat : CodePoint → Nat
  | char c => c.toNat
  | surrogate offset => 0xD800 + offset.val

/-- The code point with a given number, if there is one. -/
def ofNat? (n : Nat) : Option CodePoint :=
  if h : n.isValidChar then
    some (.char (Char.ofNatAux n h))
  else if h : 0xD800 ≤ n ∧ n < 0xE000 then
    some (.surrogate ⟨n - 0xD800, by omega⟩)
  else
    none

/-- A code point is determined by its number. -/
theorem ofNat?_toNat (c : CodePoint) : ofNat? c.toNat = some c := by
  cases c with
  | char c =>
      have hvalid : c.toNat.isValidChar := c.valid
      rw [toNat, ofNat?, dif_pos hvalid]
      rfl
  | surrogate offset =>
      have hlow : ¬ (0xD800 + offset.val).isValidChar := by
        unfold Nat.isValidChar
        omega
      have hrange : 0xD800 ≤ 0xD800 + offset.val ∧ 0xD800 + offset.val < 0xE000 := by omega
      rw [toNat, ofNat?, dif_neg hlow, dif_pos hrange]
      exact congrArg (fun k => some (surrogate k)) (Fin.ext (Nat.add_sub_cancel_left ..))

/-- The number of bytes that a code point takes in UTF-8; a surrogate would take three. -/
def utf8Size : CodePoint → Nat
  | char c => c.utf8Size
  | surrogate _ => 3

/-- The scalar value of a code point that is not a surrogate. -/
def scalar? : CodePoint → Option Char
  | char c => some c
  | surrogate _ => none

end CodePoint

namespace Text

/-- The code points of a string. -/
def ofString (s : String) : Text :=
  s.toList.map .char

instance : Coe String Text := ⟨ofString⟩

/-- The string of a text that holds no lone surrogate. -/
def toString? (t : Text) : Option String :=
  (t.mapM CodePoint.scalar?).map String.ofList

end Text

end ViewMarkup
