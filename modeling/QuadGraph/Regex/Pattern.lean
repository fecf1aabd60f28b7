import QuadGraph.Text.CharClass

/-!
Regular expressions as written: what the characters of a pattern say before the modes in force
give them a meaning.
-/
namespace QuadGraph.Regex

/-- The modes that a pattern can switch. -/
inductive Flag
  | caseless
  | multiLine
  | dotAll
  | swapGreed
  | unicode
  | crlf
  | extended
deriving DecidableEq

/-- Switches of modes, on or off. -/
abbrev Switches := List (Flag × Bool)

/-- A character; one written by two hexadecimal digits may stand for a byte. -/
structure Literal where
  char : Char
  isByte : Bool

inductive Assertion
  | lineStart
  | lineEnd
  | textStart
  | textEnd
  | wordBoundary
  | notWordBoundary
  | wordStart
  | wordEnd
  | wordStartHalf
  | wordEndHalf

/-- The classes of one letter. -/
inductive ShortClass
  | digit
  | space
  | word

inductive SetOperator
  | intersection
  | difference
  | symmetricDifference

/-- A class as written. -/
inductive ClassSet
  | single (literal : Literal)
  | range (low high : Literal)
  | ascii (members : CharClass) (negated : Bool)
  | named (members : CharClass) (negated : Bool)
  | short (kind : ShortClass) (negated : Bool)
  | bracketed (inner : ClassSet) (negated : Bool)
  | union (items : List ClassSet)
  | operation (operator : SetOperator) (left right : ClassSet)

/-- A pattern as written. -/
inductive Pattern
  | empty
  | switches (switches : Switches)
  | literal (literal : Literal)
  | dot
  | assertion (kind : Assertion)
  | set (set : ClassSet)
  | repetition (least : Nat) (most : Option Nat) (inner : Pattern)
  | group (switches : Switches) (inner : Pattern)
  | concatenation (items : List Pattern)
  | alternation (branches : List Pattern)

namespace ClassSet

mutual

/-- How deep brackets, unions and operations are nested. -/
def depth : ClassSet → Nat
  | .bracketed inner _ => inner.depth + 1
  | .union items => depths items + 1
  | .operation _ left right => max left.depth right.depth + 1
  | _ => 0

def depths : List ClassSet → Nat
  | [] => 0
  | item :: rest => max item.depth (depths rest)

end

/-- The union of items, which is the item itself where there is one. -/
def ofItems : List ClassSet → ClassSet
  | [item] => item
  | items => .union items

end ClassSet

namespace Pattern

mutual

/-- How deep a pattern is nested. -/
def depth : Pattern → Nat
  | .set members => members.depth
  | .repetition _ _ inner => inner.depth + 1
  | .group _ inner => inner.depth + 1
  | .concatenation items => depths items + 1
  | .alternation branches => depths branches + 1
  | _ => 0

def depths : List Pattern → Nat
  | [] => 0
  | item :: rest => max item.depth (depths rest)

end

/-- The concatenation of items, which is the item itself where there is one. -/
def ofItems : List Pattern → Pattern
  | [] => .empty
  | [item] => item
  | items => .concatenation items

/-- The alternation of branches, which is the branch itself where there is one. -/
def ofBranches : List Pattern → Pattern
  | [branch] => branch
  | branches => .alternation branches

end Pattern

end QuadGraph.Regex
