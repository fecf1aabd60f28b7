import QuadGraph.Quad
import Std.Data.ExtTreeMap

/-!
Bindings, the matches of a path: where it has come to, where it began, and the nodes it has named.
-/
namespace QuadGraph

/-- The nodes that names stand for. Tables with the same entries are equal. -/
abbrev Tags := Std.ExtTreeMap String NodeId

structure Binding where
  node : NodeId
  origin : NodeId
  tags : Tags
deriving DecidableEq

namespace Binding

/-- The match of a path that begins at a node. -/
def start (node : NodeId) : Binding :=
  ⟨node, node, ∅⟩

def moved (b : Binding) (node : NodeId) : Binding :=
  { b with node }

def tagged (b : Binding) (name : String) (node : NodeId) : Binding :=
  { b with tags := b.tags.insert name node }

/-- Takes over the tags of another match that are not there yet. -/
def absorb (b other : Binding) : Binding :=
  { b with tags := other.tags ∪ b.tags }

/-- Takes over all tags of another match. -/
def extend (b other : Binding) : Binding :=
  { b with tags := b.tags ∪ other.tags }

end Binding

end QuadGraph
