import QuadGraph.Number.Double

/-!
Decimal numerals: which digits stand for a binary64 magnitude, and how digits are laid out. The
digits are the fewest that read back as the same magnitude; two layouts share them.
-/
namespace QuadGraph

/-- The number digits · 10 ^ exponent. -/
structure Decimal where
  digits : Nat
  exponent : Int
deriving DecidableEq

namespace Decimal

/-- The number of decimal digits of a natural number. -/
def width (n : Nat) : Nat :=
  (Nat.toDigits 10 n).length

/-- The nearest magnitude. Exponents far out of range are decided without building the number. -/
def magnitude (d : Decimal) : Magnitude :=
  if d.digits = 0 then .zero
  else if 310 < d.exponent then .infinity
  else if d.exponent + width d.digits < -330 then .zero
  else match d.exponent with
    | .ofNat e => Magnitude.ofRatio (d.digits * Nat.pow 10 e) 1
    | .negSucc e => Magnitude.ofRatio d.digits (Nat.pow 10 (e + 1))

/-- Which of two equally near decimals is taken. -/
inductive Tie
  | up
  | even

/-- The multiple of 10 ^ exponent nearest to a finite magnitude, if it or else the neighbour on
the other side reads back as that magnitude. -/
def onGrid? (tie : Tie) (m : Magnitude) (exponent : Int) : Option Decimal :=
  let num := match exponent with
    | .ofNat _ => m.units
    | .negSucc e => m.units * Nat.pow 10 (e + 1)
  let den := match exponent with
    | .ofNat e => Magnitude.unitsPerOne * Nat.pow 10 e
    | .negSucc _ => Magnitude.unitsPerOne
  let below := num / den
  let twice := 2 * (num % den)
  let goesUp := den < twice ||
    (decide (den = twice) && match tie with
      | .up => true
      | .even => decide (below % 2 = 1))
  let order := if goesUp then [below + 1, below] else [below, below + 1]
  (order.map fun n => ⟨n, exponent⟩).find? fun d => decide (d.magnitude = m)

/-- The exponent of the leading digit of a positive finite magnitude. -/
def leading (m : Magnitude) : Int :=
  (width (m.units * Nat.pow 10 400 / Magnitude.unitsPerOne) : Int) - 401

/-- The decimal with the fewest digits that reads back as a positive finite magnitude, and of
those the nearest. Seventeen digits always suffice; the exact value stands behind them. -/
def shortest (tie : Tie) (m : Magnitude) : Decimal :=
  let grids := (List.range 17).map fun (n : Nat) => leading m - n
  (grids.findSome? (onGrid? tie m)).getD ⟨m.units * Nat.pow 5 1074, -1074⟩

/-- The digits without zeros at the end, and the exponent of the last of them. -/
def significant (d : Decimal) : List Char × Int :=
  let digits := Nat.toDigits 10 d.digits
  let zeros := (digits.reverse.takeWhile (· = '0')).length
  (digits.take (digits.length - zeros), d.exponent + zeros)

/-- Positional layout: digits, a point only before a fraction, never an exponent. -/
def positional (digits : List Char) : Int → List Char
  | .ofNat e => digits ++ List.replicate e '0'
  | .negSucc e =>
    let places := e + 1
    if places < digits.length then
      digits.take (digits.length - places) ++ '.' :: digits.drop (digits.length - places)
    else '0' :: '.' :: (List.replicate (places - digits.length) '0' ++ digits)

/-- Layout that always shows a point or an exponent: positional for a leading exponent from -5 to
15, scientific with a signed exponent otherwise. -/
def pointed (digits : List Char) (exponent : Int) : List Char :=
  let lead := exponent + digits.length - 1
  if -5 ≤ lead ∧ lead ≤ 15 then
    let text := positional digits exponent
    if 0 ≤ exponent then text ++ ['.', '0'] else text
  else
    let mantissa := match digits with
      | d :: rest@(_ :: _) => d :: '.' :: rest
      | short => short
    let sign := if lead < 0 then '-' else '+'
    mantissa ++ 'e' :: sign :: Nat.toDigits 10 lead.natAbs

end Decimal

namespace Double

/-- The plain text of a number: the fewest digits, a tie going up, laid out positionally. All
not-a-numbers have one text. -/
def text : Double → String
  | .nan _ _ => "NaN"
  | .number negative m =>
    let body :=
      if m = .infinity then "inf".toList
      else if m = .zero then ['0']
      else
        let (digits, exponent) := (Decimal.shortest .up m).significant
        Decimal.positional digits exponent
    String.ofList (if negative then '-' :: body else body)

end Double

/-- The text of a number in JSON: the fewest digits, a tie going to the even digit, with a point or
an exponent. JSON has no infinity; null stands in for it. -/
def Magnitude.jsonText (negative : Bool) (m : Magnitude) : String :=
  if m = .infinity then "null"
  else
    let body :=
      if m = .zero then "0.0".toList
      else
        let (digits, exponent) := (Decimal.shortest .even m).significant
        Decimal.pointed digits exponent
    String.ofList (if negative then '-' :: body else body)

end QuadGraph
