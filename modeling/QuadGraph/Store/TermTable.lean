import QuadGraph.Quad
import QuadGraph.Term.Key

/-!
Tables that give terms nodes. A table looks up the node of a term in one map and the term of a node
in another one, and takes a new node from a counter; it is entering terms that keeps the three in
step.
-/
namespace QuadGraph

structure TermTable where
  ids : Std.ExtTreeMap Term NodeId Term.compareKey
  terms : Std.ExtTreeMap NodeId Term
  /-- How many nodes have been given out, so the index of the next one. -/
  next : Nat

namespace TermTable

def empty : TermTable :=
  ⟨∅, ∅, 0⟩

def size (table : TermTable) : Nat :=
  table.next

/-- The node of a term that has been entered. -/
def nodeOf? (table : TermTable) (t : Term) : Option NodeId :=
  table.ids[t]?

/-- The term of a node. -/
def termOf? (table : TermTable) (node : NodeId) : Option Term :=
  table.terms[node]?

/-- All nodes, in the order in which their terms were entered. -/
def nodes (table : TermTable) : List NodeId :=
  (List.range table.next).map NodeId.mk

/-- Puts a term into both maps, under the next node. -/
def push (table : TermTable) (t : Term) : TermTable where
  ids := table.ids.insert t ⟨table.next⟩
  terms := table.terms.insert ⟨table.next⟩ t
  next := table.next + 1

/-- The node of a term, and the table with the term entered unless it was there. -/
def enter (table : TermTable) (t : Term) : NodeId × TermTable :=
  match table.nodeOf? t with
  | some node => (node, table)
  | none => (⟨table.next⟩, table.push t)

end TermTable

end QuadGraph
