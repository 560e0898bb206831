/-!
# Sets of numbers given by intervals

A property of code points is tabulated as a list of closed intervals of their numbers.
-/

namespace ViewMarkup

/-- A set of numbers, written as closed intervals `(low, high)`. -/
abbrev Intervals := List (Nat × Nat)

namespace Intervals

/-- Membership in one of the intervals. -/
def contains (s : Intervals) (n : Nat) : Bool :=
  s.any fun (low, high) => decide (low ≤ n) && decide (n ≤ high)

/-- The interval that holds a number, if there is one. -/
def find (s : Intervals) (n : Nat) : Option (Nat × Nat) :=
  s.find? fun (low, high) => decide (low ≤ n) && decide (n ≤ high)

/-- Intervals by their lengths, each after the length of the gap before it; `start` is where the first
gap starts. -/
def ofGaps (start : Nat) : List Nat → Intervals
  | gap :: length :: rest =>
    (start + gap, start + gap + length - 1) :: ofGaps (start + gap + length) rest
  | _ => []

end Intervals

end ViewMarkup
