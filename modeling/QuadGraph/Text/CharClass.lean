import QuadGraph.Text.CaseFold

/-!
Classes of characters: tables and ranges, joined by the operations on sets and by case folding.
-/
namespace QuadGraph

inductive CharClass
  | table (table : CharTable)
  | range (low high : Nat)
  | union (left right : CharClass)
  | intersection (left right : CharClass)
  | difference (left right : CharClass)
  | symmetricDifference (left right : CharClass)
  | complement (inner : CharClass)
  /-- The characters that are the same as a member but for case. -/
  | caseless (inner : CharClass)
  /-- The same where case is that of the English alphabet only. -/
  | asciiCaseless (inner : CharClass)

namespace CharClass

def contains : CharClass → Char → Bool
  | .table t, c => t.contains c
  | .range low high, c => low ≤ c.toNat && c.toNat ≤ high
  | .union a b, c => a.contains c || b.contains c
  | .intersection a b, c => a.contains c && b.contains c
  | .difference a b, c => a.contains c && !b.contains c
  | .symmetricDifference a b, c => a.contains c != b.contains c
  | .complement a, c => !a.contains c
  | .caseless a, c => (CaseFold.variants c.toNat).any fun code => a.contains (Char.ofNat code)
  | .asciiCaseless a, c => a.contains c.toLower || a.contains c.toUpper

def single (c : Char) : CharClass :=
  .range c.toNat c.toNat

/-- The class without characters. -/
def empty : CharClass :=
  .table ⟨[]⟩

/-- The class of all characters. -/
def all : CharClass :=
  .complement empty

/-- The union of some classes. -/
def unions (classes : List CharClass) : CharClass :=
  classes.foldr .union empty

def tables (list : List CharTable) : CharClass :=
  unions (list.map .table)

end CharClass

end QuadGraph
