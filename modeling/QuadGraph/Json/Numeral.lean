import QuadGraph.Json.Basic
import QuadGraph.Number.Numeral

/-!
Numbers as JSON writes them, and the values they are given. An integer that fits 64 bits keeps its
value. Any other number goes through a significand of 64 bits that is scaled once by a power of
ten, so its value may lie next to the nearest one.
-/
namespace QuadGraph

/-- A number as written: digits before the point, digits after it if there is a point, and the
sign and digits of the exponent if there is one. -/
structure JsonNumeral where
  negative : Bool
  whole : List Char
  fraction : Option (List Char)
  exponent : Option (Bool × List Char)

namespace JsonNumeral

/-- Takes digits into a significand for as long as it stays below 2 ^ 64, and gives back the
digits that do not fit. -/
def accumulate (significand : Nat) : List Char → Nat × List Char
  | [] => (significand, [])
  | d :: rest =>
    let next := significand * 10 + (d.toNat - 48)
    if next < UInt64.size then accumulate next rest else (significand, d :: rest)

/-- The binary64 number nearest to a power of ten. -/
def power (n : Nat) : Magnitude :=
  Magnitude.ofRatio (Nat.pow 10 n) 1

/-- Divides by a power of ten in steps of 308 powers, each rounded. Zero stays zero. -/
def lower (m : Magnitude) (n : Nat) : Magnitude :=
  if n ≤ 308 then m.div (power n)
  else if m = .zero then m
  else lower (m.div (power 308)) (n - 308)
termination_by n
decreasing_by omega

/-- A significand times a power of ten; none where the result is too large. -/
def scale? (significand : Nat) (exponent : Int) : Option Magnitude :=
  let m := Magnitude.ofRatio significand 1
  match exponent with
  | .ofNat e =>
    if e ≤ 308 then
      let scaled := m.mul (power e)
      if scaled = .infinity then none else some scaled
    else if m = .zero then some m
    else none
  | .negSucc e => some (lower m (e + 1))

/-- The magnitude of a number with a point, an exponent or too many digits. Digits before the
point that do not fit the significand count as powers of ten; those after it are dropped. An
exponent of 2 ^ 31 or more gives zero or is refused, by its sign and the significand. -/
def magnitude? (n : JsonNumeral) : Option Magnitude :=
  let (significand, extra) := accumulate 0 n.whole
  let places := n.fraction.getD []
  let (significand, dropped) := accumulate significand places
  let base : Int := extra.length - (places.length - dropped.length : Nat)
  match n.exponent with
  | none => scale? significand base
  | some (negative, digits) =>
    let e := Numeral.value digits
    if Int32.maxValue.toInt < e then
      if significand ≠ 0 ∧ !negative then none else some .zero
    else scale? significand (if negative then base - e else base + e)

/-- The value of a number; none where it is too large. -/
def number? (n : JsonNumeral) : Option JsonNumber :=
  let value := Numeral.value n.whole
  let isInteger := n.fraction.isNone && n.exponent.isNone &&
    if n.negative then decide (0 < value ∧ Int64.minValue.toInt ≤ -value)
    else decide (value < UInt64.size)
  if isInteger then some (.integer (if n.negative then -value else value))
  else n.magnitude?.map fun m => .real n.negative m

end JsonNumeral

end QuadGraph
