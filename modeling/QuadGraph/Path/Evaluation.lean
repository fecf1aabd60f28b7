import QuadGraph.Path.Basic
import QuadGraph.Path.Binding
import QuadGraph.Slots
import QuadGraph.Store.Basic

/-!
Walking a path over a store: the list of its matches, in order. A path may need a match to start
from, its seed. The seed is handed on to the sources of a path and to both sides of a set
operation, but never to the paths that say which predicates are followed.
-/
namespace QuadGraph

namespace Walking

/-- Whether a node is one of some nodes; no list admits every node. -/
def admits (nodes : Option (List NodeId)) (node : NodeId) : Bool :=
  nodes.all (·.contains node)

/-- The predicates that may be followed, given the path to them and its matches. The path to all
nodes stands for any predicate. -/
def admitted (via : Path) (found : Except StoreError (List Binding)) :
    Except StoreError (Option (List NodeId)) := do
  if via.isAll then return none
  return some ((← found).map (·.node))

/-- The quads that can be followed one way from a node. -/
def quads (store : QuadStore) (way : Way) (admitted : Option (List NodeId)) (node : NodeId) :
    Except StoreError (List IndexedQuad) := do
  return (← store.quadsBy way.near node).filter fun q => admits admitted q.predicate

/-- The distinct predicates of quads, in the order in which they come up. -/
def predicates (quads : List IndexedQuad) : List NodeId :=
  (quads.map (·.predicate)).eraseDups

/-- The nodes that following quads leads to. Both ways at once keep the order of the quads. -/
def hops (store : QuadStore) (route : Route) (admitted : Option (List NodeId)) (node : NodeId) :
    Except StoreError (List NodeId) := do
  match route with
  | .one way => return (← quads store way admitted node).map way.far
  | .both =>
    let forward ← quads store .forward admitted node
    let backward ← quads store .backward admitted node
    let all := forward.map (fun q => (q.id, q.object)) ++ backward.map fun q => (q.id, q.subject)
    return (all.mergeSort fun a b => a.1.index ≤ b.1.index).map (·.2)

/-- Puts the far end of a quad into the group of its predicate. A new group is named after the
predicate. -/
def enterEnd (store : QuadStore) (way : Way) (groups : Slots NodeId (String × List NodeId) compare)
    (q : IndexedQuad) : Except StoreError (Slots NodeId (String × List NodeId) compare) := do
  match groups.place? q.predicate with
  | some place => return groups.change place fun group => (group.1, group.2 ++ [way.far q])
  | none => return groups.push q.predicate ((← store.term q.predicate).tagName, [way.far q])

/-- One match for every choice of a far end for every predicate, named after the predicates. -/
def saveAll (store : QuadStore) (way : Way) (b : Binding) : Except StoreError (List Binding) := do
  let quads ← store.quadsBy way.near b.node
  let groups ← quads.foldlM (enterEnd store way) .empty
  if groups.items.isEmpty then return []
  return groups.items.foldl
    (fun partials group => partials.flatMap fun b => group.2.map (b.tagged group.1)) [b]

/-- The first of the matches at every node. -/
def firsts (bindings : List Binding) : List Binding :=
  bindings.eraseDupsBy fun a b => a.node == b.node

/-- Matches sorted by the terms of their nodes; the order of equal ones stays. -/
def sorted (store : QuadStore) (bindings : List Binding) : Except StoreError (List Binding) := do
  let keyed ← bindings.mapM fun b => do return (← store.term b.node, b)
  return (keyed.mergeSort fun a b => (a.1.compareCanonical b.1).isLE).map (·.2)

end Walking

namespace Path

open Walking

mutual

/-- The matches of a path. -/
def evaluate (store : QuadStore) : Path → Option Binding → Except StoreError (List Binding)
  | .all, _ => do return (← store.nodes).map .start
  | .fixed nodes, _ => return nodes.map .start
  | .here, seed =>
    match seed with
    | some b => return [b]
    | none => throw .missingAmbient
  | .follow source route via, seed => do
    let admitted ← admitted via (evaluate store via none)
    (← evaluate store source seed).flatMapM fun b => do
      return (← hops store route admitted b.node).map b.moved
  | .predicates source way, seed => do
    (← evaluate store source seed).flatMapM fun b => do
      return (Walking.predicates (← store.quadsBy way.near b.node)).map b.moved
  | .savePredicates source way name, seed => do
    (← evaluate store source seed).flatMapM fun b => do
      return (Walking.predicates (← store.quadsBy way.near b.node)).map (b.tagged name)
  | .save source way via name, seed => do
    let admitted ← admitted via (evaluate store via none)
    (← evaluate store source seed).flatMapM fun b => do
      return (← quads store way admitted b.node).map fun q => b.tagged name (way.far q)
  | .saveAll source way, seed => do
    (← evaluate store source seed).flatMapM (Walking.saveAll store way)
  | .has source way via targets, seed => do
    let admitted ← admitted via (evaluate store via none)
    (← evaluate store source seed).flatMapM fun b => do
      let found ← quads store way admitted b.node
      return if found.any fun q => admits targets (way.far q) then [b] else []
  | .isOneOf source nodes, seed => do
    return (← evaluate store source seed).filter fun b => nodes.contains b.node
  | .tag source name, seed => do
    return (← evaluate store source seed).map fun b => b.tagged name b.node
  | .back source name, seed => do
    return (← evaluate store source seed).filterMap fun b =>
      match name with
      | some name => b.tags[name]?.map b.moved
      | none => some (b.moved b.origin)
  | .union left right, seed => do
    let first ← evaluate store left seed
    return first ++ (← evaluate store right seed)
  | .intersect left right, seed => do
    let others ← evaluate store right seed
    return (← evaluate store left seed).filterMap fun b =>
      (others.find? (·.node = b.node)).map b.absorb
  | .except left right, seed => do
    let others ← evaluate store right seed
    return (← evaluate store left seed).filter fun b => !others.any (·.node = b.node)
  | .limit source count, seed => do
    return (← evaluate store source seed).take count
  | .skip source count, seed => do
    return (← evaluate store source seed).drop count
  | .unique source, seed => do
    return firsts (← evaluate store source seed)
  | .order source, seed => do
    sorted store (← evaluate store source seed)
  | .optional source extension, seed => do
    (← evaluate store source seed).mapM fun b => do
      return match (← evaluate store extension (some b)).head? with
        | some found => b.extend found
        | none => b
  | .whereAll source clauses, seed => do
    (← evaluate store source seed).flatMapM fun b => join store clauses [b]
  | .filter source condition, seed => do
    (← evaluate store source seed).flatMapM fun b => do
      return if (← store.termOf b.node).any condition.accepts then [b] else []

/-- Walks the clauses one after the other. From every match so far comes a match for each one of
the next clause, at the same place and with the tags of that one added. -/
def join (store : QuadStore) : List Path → List Binding → Except StoreError (List Binding)
  | [], found => return found
  | clause :: rest, found => do
    let next ← found.flatMapM fun b => do
      return (← evaluate store clause (some b)).map b.extend
    join store rest next

end

end Path

/-- The matches of a path that begins by itself. -/
def QuadStore.execute (store : QuadStore) (path : Path) : Except StoreError (List Binding) :=
  path.evaluate store none

end QuadGraph
