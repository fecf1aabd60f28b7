import QuadGraph.Term.Basic

/-!
Two ways to compare terms. The canonical order puts all terms in a row; the native comparison
compares numbers with numbers, texts with texts and truth values with truth values, and nothing
else.
-/
namespace QuadGraph.Term

/-- References come first, then texts, numbers and truth values. -/
def rank : Term → Nat
  | .iri _ => 0
  | .blank _ => 0
  | .plain _ => 1
  | .typed _ _ => 1
  | .lang _ _ => 1
  | .int _ => 2
  | .float _ => 2
  | .bool _ => 3

/-- Tells the kinds of terms of one rank apart. -/
def kind : Term → Nat
  | .iri _ => 0
  | .blank _ => 1
  | .plain _ => 2
  | .typed _ _ => 3
  | .lang _ _ => 4
  | .int _ => 5
  | .float _ => 6
  | .bool _ => 7

/-- The binary64 number of a number; an integer is rounded. -/
def numeric? : Term → Option Double
  | .int value => some (Double.ofInt value.toInt)
  | .float value => some value
  | _ => none

/-- The canonical order. Numbers are compared as binary64 numbers, an integer before a float that
it rounds to. Others are compared by their text, then by kind, datatype and language. -/
def compareCanonical (a b : Term) : Ordering :=
  (compare a.rank b.rank).then <|
    match a.numeric?, b.numeric? with
    | some x, some y => (x.totalCompare y).then (compare a.kind b.kind)
    | _, _ =>
      (compare a.lexical b.lexical).then <|
      (compare a.kind b.kind).then <|
      (compare a.datatype? b.datatype?).then <|
      compare a.language? b.language?

/-- The native comparison. Two integers are compared exactly, an integer and a float after
rounding; no answer stands for terms that cannot be compared. -/
def compareNative? : Term → Term → Option Ordering
  | .int a, .int b => some (compare a.toInt b.toInt)
  | .int a, .float b => (Double.ofInt a.toInt).compare? b
  | .float a, .int b => a.compare? (Double.ofInt b.toInt)
  | .float a, .float b => a.compare? b
  | .bool a, .bool b => some (compare a b)
  | a, b => do return compare (← a.text?) (← b.text?)

end QuadGraph.Term
