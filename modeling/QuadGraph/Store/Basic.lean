import QuadGraph.Quad

/-!
What a query needs of a store: four questions, each of which may fail.
-/
namespace QuadGraph

inductive StoreError
  /-- A path that starts where another one stands was walked by itself. -/
  | missingAmbient
  | unknownQuad (id : QuadId)
  /-- A node for which the store has no term. -/
  | unknownNode (id : NodeId)
  | backend (reason : String)
deriving DecidableEq

def StoreError.message : StoreError → String
  | .missingAmbient =>
    "path starts at the ambient position but no ambient binding was supplied"
  | .unknownQuad id => "unknown quad " ++ id.text
  | .unknownNode id => "node " ++ id.text ++ " has no value"
  | .backend reason => "store backend failure: " ++ reason

structure QuadStore where
  /-- The node of a term, if the store knows the term. -/
  nodeOf : Term → Except StoreError (Option NodeId)
  /-- The term of a node, if there is one. -/
  termOf : NodeId → Except StoreError (Option Term)
  /-- All nodes, in the order of the store. -/
  nodes : Except StoreError (List NodeId)
  /-- The quads with a node at a position, in the order of the store. -/
  quadsBy : Position → NodeId → Except StoreError (List IndexedQuad)

namespace QuadStore

/-- The nodes of those terms that the store knows. -/
def known (store : QuadStore) (terms : List Term) : Except StoreError (List NodeId) := do
  return (← terms.mapM store.nodeOf).filterMap id

/-- The term of a node that is expected to have one. -/
def term (store : QuadStore) (node : NodeId) : Except StoreError Term := do
  match ← store.termOf node with
  | some t => return t
  | none => throw (.unknownNode node)

end QuadStore

end QuadGraph
