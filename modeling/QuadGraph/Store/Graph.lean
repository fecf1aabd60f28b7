import QuadGraph.Store.Basic
import QuadGraph.Store.TermTable
import Std.Data.ExtTreeSet

/-!
A graph in memory. Quads keep the order in which they were added, each is kept once by a set of what
was seen, and every node has an index entry for every position in which it stands.
-/
namespace QuadGraph

/-- The quads in which a node stands at a position, in the order in which they were added. -/
abbrev NodeIndex := Std.ExtTreeMap NodeId (Array QuadId)

namespace NodeIndex

def quads (index : NodeIndex) (node : NodeId) : Array QuadId :=
  index.getD node #[]

def add (index : NodeIndex) (node : NodeId) (quad : QuadId) : NodeIndex :=
  index.insert node ((index.quads node).push quad)

end NodeIndex

structure Graph where
  table : TermTable
  quads : Array IndexedQuad
  /-- The nodes of all quads, so that none is added twice. -/
  seen : Std.ExtTreeSet QuadNodes QuadNodes.compareNodes
  subjects : NodeIndex
  predicates : NodeIndex
  objects : NodeIndex
  labels : NodeIndex

namespace Graph

def empty : Graph :=
  ⟨.empty, #[], ∅, ∅, ∅, ∅, ∅⟩

def size (g : Graph) : Nat :=
  g.quads.size

def index (g : Graph) : Position → NodeIndex
  | .subject => g.subjects
  | .predicate => g.predicates
  | .object => g.objects
  | .label => g.labels

def quad? (g : Graph) (id : QuadId) : Option IndexedQuad :=
  g.quads[id.index]?

/-- The quads with a node at a position, in the order in which they were added. -/
def quadsBy (g : Graph) (position : Position) (node : NodeId) : List IndexedQuad :=
  ((g.index position).quads node).toList.filterMap g.quad?

/-- The graph with a quad of nodes put behind the others. -/
def push (g : Graph) (nodes : QuadNodes) : Graph :=
  let id : QuadId := ⟨g.size⟩
  { g with
    quads := g.quads.push ⟨id, nodes.subject, nodes.predicate, nodes.object, nodes.label⟩
    seen := g.seen.insert nodes
    subjects := g.subjects.add nodes.subject id
    predicates := g.predicates.add nodes.predicate id
    objects := g.objects.add nodes.object id
    labels := match nodes.label with
      | some label => g.labels.add label id
      | none => g.labels }

/-- Adds a quad, entering its terms from the subject to the label. A quad that is there already is
not added again and gets no identifier. -/
def add (g : Graph) (q : Quad) : Option QuadId × Graph :=
  let (subject, table) := g.table.enter q.subject
  let (predicate, table) := table.enter q.predicate
  let (object, table) := table.enter q.object
  let (label, table) := match q.label with
    | some label =>
      let (label, table) := table.enter label
      (some label, table)
    | none => (none, table)
  let g := { g with table }
  let nodes : QuadNodes := ⟨subject, predicate, object, label⟩
  if g.seen.contains nodes then (none, g)
  else (some ⟨g.size⟩, g.push nodes)

/-- The graph of some quads, added in order. -/
def ofQuads (quads : List Quad) : Graph :=
  quads.foldl (fun g q => (g.add q).2) empty

/-- The terms of a quad. -/
def resolve (g : Graph) (id : QuadId) : Except StoreError Quad := do
  let some q := g.quad? id | throw (.unknownQuad id)
  let term (node : NodeId) : Except StoreError Term :=
    match g.table.termOf? node with
    | some t => .ok t
    | none => .error (.unknownQuad id)
  return {
    subject := ← term q.subject
    predicate := ← term q.predicate
    object := ← term q.object
    label := ← q.label.mapM term }

/-- The graph as a store, which never fails. -/
def toStore (g : Graph) : QuadStore where
  nodeOf t := .ok (g.table.nodeOf? t)
  termOf node := .ok (g.table.termOf? node)
  nodes := .ok g.table.nodes
  quadsBy position node := .ok (g.quadsBy position node)

end Graph

end QuadGraph
