/-!
Tables of characters: ascending ranges of code points, written down as the gaps between them.
-/
namespace QuadGraph

/-- Ranges of code points in ascending order, both ends included. -/
structure CharTable where
  ranges : List (Nat × Nat)

namespace CharTable

/-- The hexadecimal numbers of a text, separated by blanks and line ends. -/
def numbers (text : String) : List Nat :=
  let digit (c : Char) : Nat := if c.isDigit then c.toNat - 48 else c.toNat - 87
  let (done, last) := text.toList.foldl
    (fun (done, last) c =>
      if c.isWhitespace then (last.toList ++ done, none)
      else (done, some (last.getD 0 * 16 + digit c)))
    (([], none) : List Nat × Option Nat)
  (last.toList ++ done).reverse

/-- The ranges that follow a code point, given as pairs of the way to the first code point of a
range and the way from there to its last. -/
def fromGaps (start : Nat) : List Nat → List (Nat × Nat)
  | gap :: span :: rest =>
    (start + gap, start + gap + span) :: fromGaps (start + gap + span) rest
  | _ => []

/-- The table of a text of hexadecimal gaps and spans. -/
def ofGaps (text : String) : CharTable :=
  ⟨fromGaps 0 (numbers text)⟩

def contains (table : CharTable) (c : Char) : Bool :=
  table.ranges.any fun (low, high) => low ≤ c.toNat && c.toNat ≤ high

end CharTable

end QuadGraph
