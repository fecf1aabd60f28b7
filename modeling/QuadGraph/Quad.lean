import QuadGraph.Term.Basic
import Std.Data.ExtTreeMap

/-!
Quads, the facts of a graph, with terms or with the identifiers that a store gives them.
-/
namespace QuadGraph

/-- The identifier of a node in a store. -/
structure NodeId where
  index : Nat
deriving DecidableEq

def NodeId.text (n : NodeId) : String :=
  "n" ++ toString n.index

instance : Ord NodeId := ⟨fun a b => compare a.index b.index⟩

instance : Std.TransOrd NodeId where
  eq_swap {a b} := @Std.OrientedCmp.eq_swap Nat compare _ a.index b.index
  isLE_trans {a b c} := @Std.TransCmp.isLE_trans Nat compare _ a.index b.index c.index

instance : Std.LawfulEqOrd NodeId where
  eq_of_compare {a b} h := by
    have h : a.index = b.index := @Std.LawfulEqCmp.eq_of_compare Nat compare _ _ _ h
    cases a; cases b; simp_all

/-- The identifier of a quad in a store. -/
structure QuadId where
  index : Nat
deriving DecidableEq

def QuadId.text (q : QuadId) : String :=
  "QuadId(" ++ toString q.index ++ ")"

/-- A subject with a property and its value, perhaps in a graph with a label. -/
structure Quad where
  subject : Term
  predicate : Term
  object : Term
  label : Option Term
deriving DecidableEq

/-- The quad of four IRIs; an empty one in the last place stands for no label. -/
def Quad.ofIris (subject predicate object label : String) : Quad where
  subject := .iri subject
  predicate := .iri predicate
  object := .iri object
  label := if label = "" then none else some (.iri label)

/-- A place in a quad. -/
inductive Position
  | subject
  | predicate
  | object
  | label
deriving DecidableEq

/-- A quad as a store keeps it. -/
structure IndexedQuad where
  id : QuadId
  subject : NodeId
  predicate : NodeId
  object : NodeId
  label : Option NodeId
deriving DecidableEq

/-- The node at a position. -/
def IndexedQuad.node? (q : IndexedQuad) : Position → Option NodeId
  | .subject => some q.subject
  | .predicate => some q.predicate
  | .object => some q.object
  | .label => q.label

/-- The nodes of a quad, all that tells stored quads apart. -/
structure QuadNodes where
  subject : NodeId
  predicate : NodeId
  object : NodeId
  label : Option NodeId
deriving DecidableEq

namespace QuadNodes

/-- An order for looking up quads by their nodes. -/
def compareNodes : QuadNodes → QuadNodes → Ordering :=
  compareLex (compareOn subject) (compareLex (compareOn predicate)
    (compareLex (compareOn object) (compareOn label)))

instance : Std.TransCmp compareNodes := by
  unfold compareNodes
  infer_instance

instance : Std.LawfulEqCmp compareNodes where
  eq_of_compare {a b} h := by
    simp only [compareNodes, compareLex, Ordering.then_eq_eq, compareOn,
      Std.LawfulEqOrd.compare_eq_iff_eq] at h
    cases a; cases b; simp_all

end QuadNodes

def IndexedQuad.nodes (q : IndexedQuad) : QuadNodes :=
  ⟨q.subject, q.predicate, q.object, q.label⟩

end QuadGraph
