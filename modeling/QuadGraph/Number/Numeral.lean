import QuadGraph.Number.Decimal

/-!
Reading numbers from text: integers of 64 bits, binary64 numbers and truth values. Each reader
takes the whole text or refuses it.
-/
namespace QuadGraph

namespace Numeral

/-- The value of a row of decimal digits. -/
def value (digits : List Char) : Nat :=
  Nat.ofDigitChars 10 digits 0

/-- Takes an optional sign off the front; true stands for minus. -/
def sign : List Char → Bool × List Char
  | '-' :: rest => (true, rest)
  | '+' :: rest => (false, rest)
  | rest => (false, rest)

/-- The digits at the front, and what follows them. -/
def digits (text : List Char) : List Char × List Char :=
  text.span Char.isDigit

/-- A signed row of at least one digit that makes up the whole text. -/
def integer? (text : List Char) : Option Int :=
  let (negative, rest) := sign text
  if rest.isEmpty || !rest.all Char.isDigit then none
  else some (if negative then -value rest else value rest)

/-- Digits with an optional point, at least one digit in all, then an optional exponent. -/
def decimal? (text : List Char) : Option Decimal := do
  let (whole, rest) := digits text
  let (fraction, rest) := match rest with
    | '.' :: tail => digits tail
    | other => ([], other)
  guard (!(whole.isEmpty && fraction.isEmpty))
  let exponent ← match rest with
    | [] => some 0
    | e :: tail => if e = 'e' ∨ e = 'E' then integer? tail else none
  return ⟨value (whole ++ fraction), exponent - fraction.length⟩

end Numeral

/-- Reads an integer with an optional sign, if it fits 64 bits. -/
def int64? (text : String) : Option Int64 := do
  let i ← Numeral.integer? text.toList
  guard (Int64.minValue.toInt ≤ i ∧ i ≤ Int64.maxValue.toInt)
  return Int64.ofInt i

/-- Reads a truth value by its lower-case name. -/
def bool? (text : String) : Option Bool :=
  if text = "true" then some true
  else if text = "false" then some false
  else none

/-- Reads a number: an optional sign, then a decimal, or a name of infinity or of not-a-number in
letters of either case. What is too large is infinite. -/
def Double.ofText? (text : String) : Option Double :=
  let (negative, body) := Numeral.sign text.toList
  let name := String.ofList (body.map Char.toLower)
  if name = "nan" then some (.nan negative .quiet)
  else if name = "inf" ∨ name = "infinity" then some (.number negative .infinity)
  else (Numeral.decimal? body).map fun d => .number negative d.magnitude

end QuadGraph
