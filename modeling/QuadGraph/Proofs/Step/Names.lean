import QuadGraph.Path.Evaluation
import QuadGraph.Proofs.Outcome
import QuadGraph.Proofs.Store.Terms
import QuadGraph.Step.Compilation
import QuadGraph.Store.Graph

/-! The names in steps, looked up in a graph: the nodes of the terms that the names are expanded
to. -/
namespace QuadGraph.Compilation

open Outcome Walking

/-- The nodes of the terms that some terms are expanded to. -/
def nodesOf (g : Graph) (v : Vocabulary) (terms : List Term) : List NodeId :=
  (terms.map v.expand).filterMap g.table.nodeOf?

theorem resolve_toStore (g : Graph) (v : Vocabulary) (terms : List Term) :
    resolve g.toStore v terms = .ok (nodesOf g v terms) := by
  have hmap : (terms.map v.expand).mapM g.toStore.nodeOf =
      .ok ((terms.map v.expand).map g.table.nodeOf?) := by
    rw [mapM_eq_ok, List.forall₂_map_right_iff, List.forall₂_same]
    exact fun _ _ => rfl
  rw [resolve, QuadStore.known, hmap]
  simp [nodesOf, bind, Except.bind, pure, Except.pure, Except.mapError, List.filterMap_map]

theorem property_toStore (g : Graph) (v : Vocabulary) (name : String) :
    property g.toStore v name = .ok (.fixed (nodesOf g v [.iri name])) := by
  rw [property, resolve_toStore]
  rfl

theorem mem_nodesOf (g : Graph) (hc : g.table.Consistent) (v : Vocabulary) (terms : List Term)
    (n : NodeId) :
    n ∈ nodesOf g v terms ↔ ∃ t ∈ terms, g.table.termOf? n = some (v.expand t) := by
  simp only [nodesOf, List.mem_filterMap, List.mem_map, hc.nodeOf_iff]
  constructor
  · rintro ⟨_, ⟨t, ht, rfl⟩, hterm⟩
    exact ⟨t, ht, hterm⟩
  · rintro ⟨t, ht, hterm⟩
    exact ⟨_, ⟨t, ht, rfl⟩, hterm⟩

theorem mem_nodesOf_iff (g : Graph) (hc : g.table.Consistent) (v : Vocabulary)
    (terms : List Term) (n : NodeId) (t : Term) (ht : g.table.termOf? n = some t) :
    n ∈ nodesOf g v terms ↔ t ∈ terms.map v.expand := by
  rw [mem_nodesOf g hc, ht, List.mem_map]
  simp only [Option.some.injEq, eq_comm]

theorem targets_toStore (g : Graph) (hc : g.table.Consistent) (v : Vocabulary)
    (values : List Term) :
    ∃ nodes, targets g.toStore v values = .ok nodes ∧
      ∀ n t, g.table.termOf? n = some t →
        (admits nodes n ↔ values = [] ∨ t ∈ values.map v.expand) := by
  cases values with
  | nil => exact ⟨none, rfl, by simp [admits]⟩
  | cons value rest =>
    refine ⟨some (nodesOf g v (value :: rest)), ?_, ?_⟩
    · rw [targets, resolve_toStore]
      rfl
    · intro n t ht
      rw [← mem_nodesOf_iff g hc v _ n t ht]
      simp [admits]

end QuadGraph.Compilation
