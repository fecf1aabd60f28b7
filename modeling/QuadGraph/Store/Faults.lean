import QuadGraph.Store.Basic

/-!
Stores in which some questions fail, and some terms are lost.
-/
namespace QuadGraph

/-- Which questions fail always, of which nodes the term cannot be read, and of which it is
lost. -/
structure Faults where
  nodeOf : Bool
  nodes : Bool
  quadsBy : Bool
  termOf : Bool
  unreadable : List NodeId
  lost : List NodeId

namespace Faults

/-- The failure of a question under its name, if it is to fail. -/
def check (fails : Bool) (name : String) : Except StoreError Unit :=
  if fails then .error (.backend (name ++ " unavailable")) else .ok ()

/-- The store with these faults. -/
def apply (faults : Faults) (store : QuadStore) : QuadStore where
  nodeOf t := do check faults.nodeOf "lookup"; store.nodeOf t
  nodes := do check faults.nodes "scan"; store.nodes
  quadsBy position node := do check faults.quadsBy "quads"; store.quadsBy position node
  termOf node := do
    check faults.termOf "value"
    check (faults.unreadable.contains node) ("value of " ++ node.text)
    if faults.lost.contains node then return none
    store.termOf node

end Faults

end QuadGraph
