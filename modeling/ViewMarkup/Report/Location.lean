import ViewMarkup.Report.Range
import ViewMarkup.Text.CodePoint

/-!
# Locating bytes in a document

Tags are located by byte offsets in the UTF-8 form of the document, and shown by line and column.
A tracker walks forward over the bytes and keeps how far it has come, so that a later place costs
only the distance from the last one.  Going back is a fault, except when the range of a tag is
asked for: then the walk starts again.

Offsets may be negative.  A negative offset lies before every position, and in the search for the
end of a tag it counts from the end of the document.
-/

namespace ViewMarkup

/-- The UTF-8 form of a text.  A lone surrogate is written like any other point of its size. -/
def Text.utf8 (t : Text) : List UInt8 :=
  t.flatMap fun c => match c with
    | .char c => String.utf8EncodeChar c
    | .surrogate k =>
      let n := 0xD800 + k.val
      [UInt8.ofNat (0xE0 + n / 4096), UInt8.ofNat (0x80 + n / 64 % 64), UInt8.ofNat (0x80 + n % 64)]

/-- Why a place cannot be given. -/
inductive LocationFault where
  /-- The place lies before one that was asked for earlier. -/
  | backwards
  /-- The place lies before the start of the document. -/
  | outside
  deriving DecidableEq

/-- A walk over the bytes of a document. -/
structure Tracker where
  bytes : List UInt8
  line : Nat
  column : Nat
  index : Nat
  cursor : Option Int

namespace Tracker

/-- A tracker at the start of a document. -/
def ofText (source : Text) : Tracker :=
  ⟨source.utf8, 1, 1, 0, none⟩

/-- The line and the column after one more byte.  Columns count characters, so the second and later
bytes of a character do not move them. -/
def pass (place : Nat × Nat) (byte : UInt8) : Nat × Nat :=
  if byte = 0x0A then (place.1 + 1, 1)
  else if byte &&& 0xC0 = 0x80 then place
  else (place.1, place.2 + 1)

/-- Walks forward to an offset, or to the end if the offset lies beyond. -/
def advance (t : Tracker) (index : Nat) : Tracker :=
  let passed := (t.bytes.drop t.index).take (index - t.index)
  let (line, column) := passed.foldl pass (t.line, t.column)
  { t with line, column, index := t.index + passed.length }

/-- The position that the tracker has reached. -/
def here (t : Tracker) : Position :=
  ⟨t.line, t.column⟩

/-- The position of a byte. -/
def position (t : Tracker) (index : Int) : Except LocationFault (Position × Tracker) :=
  if index < t.index then .error .backwards
  else
    let t := t.advance index.toNat
    .ok (t.here, t)

/-- The distance to the `>` that ends a tag, where a quoted part may hold any bytes. -/
def distanceToEnd : (quote : Option UInt8) → List UInt8 → Option Nat
  | _, [] => none
  | some q, b :: rest => (distanceToEnd (if b = q then none else some q) rest).map (· + 1)
  | none, b :: rest =>
    if b = 0x3E then some 0
    else (distanceToEnd (if b = 0x22 ∨ b = 0x27 then some b else none) rest).map (· + 1)

/-- The offset of the `>` that ends the tag at an offset; without one, the last byte or the offset,
whichever is later.  From a negative offset the bytes are read from so far before the end, and then
once more from the start. -/
def tagEnd (t : Tracker) (start : Int) : Except LocationFault Int :=
  let size := t.bytes.length
  let last := max ((size : Int) - 1) start
  match start with
  | .ofNat n => .ok (((distanceToEnd none (t.bytes.drop n)).map fun d => (n + d : Int)).getD last)
  | .negSucc n =>
    if size < n + 1 then .error .outside
    else
      let bytes := t.bytes.drop (size - (n + 1)) ++ t.bytes
      .ok (((distanceToEnd none bytes).map fun d => start + d).getD last)

/-- Sets the offset of the tag that is being read. -/
def setCursor (t : Tracker) (index : Int) : Tracker :=
  { t with cursor := some index }

/-- The tracker put back to the start of the document. -/
def rewind (t : Tracker) : Tracker :=
  { t with line := 1, column := 1, index := 0 }

/-- The range of the tag at the cursor, with the tracker after it; there is none before the first
tag.  A fault leaves the tracker at the start if the cursor lay behind it. -/
def range (t : Tracker) : Except LocationFault (Option SourceRange) × Tracker :=
  match t.cursor with
  | none => (.ok none, t)
  | some start =>
    match t.tagEnd start with
    | .error fault => (.error fault, t)
    | .ok stop =>
      let t := if start < t.index then t.rewind else t
      match t.position start with
      | .error fault => (.error fault, t)
      | .ok (first, t) =>
        match t.position stop with
        | .error fault => (.error fault, t)
        | .ok (last, t) => (.ok (some ⟨first, last⟩), t)

end Tracker

end ViewMarkup
