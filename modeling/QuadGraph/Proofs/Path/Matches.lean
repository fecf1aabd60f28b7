import QuadGraph.Path.Evaluation
import QuadGraph.Proofs.Outcome

/-! What is in the lists that walking a path puts together: the distinct predicates of quads, the
ends of hops, the first matches at every node, and the sorted matches. -/
namespace QuadGraph

/-- The ways along a route. -/
def Route.ways : Route → List Way
  | .one way => [way]
  | .both => [.forward, .backward]

theorem Path.eq_all_of_isAll (p : Path) (h : p.isAll = true) : p = .all := by
  cases p <;> first | rfl | cases h

namespace Walking

open Outcome

theorem mem_predicates (found : List IndexedQuad) (n : NodeId) :
    n ∈ predicates found ↔ ∃ q ∈ found, q.predicate = n := by
  rw [predicates, List.mem_eraseDups, List.mem_map]

@[simp] theorem isEmpty_predicates (found : List IndexedQuad) :
    (predicates found).isEmpty = found.isEmpty := by
  cases found with
  | nil => rfl
  | cons q rest =>
    rw [predicates, List.map_cons, List.eraseDups_cons]
    rfl

/-- The path to given predicates allows these. -/
theorem admitted_fixed (store : QuadStore) (nodes : List NodeId) :
    admitted (.fixed nodes) (Path.evaluate store (.fixed nodes) none) = .ok (some nodes) := by
  have hnodes : (nodes.map Binding.start).map (·.node) = nodes := by
    rw [List.map_map]
    exact List.map_id nodes
  rw [admitted, if_neg (by simp [Path.isAll]), Path.evaluate]
  exact congrArg (fun found => Except.ok (some found)) hnodes

/-- Hops end where the quads of a way along the route do; their order is another matter. -/
theorem mem_hops (store : QuadStore) (route : Route) (nodes : Option (List NodeId)) (n : NodeId)
    (out : List NodeId) (h : hops store route nodes n = .ok out) (m : NodeId) :
    m ∈ out ↔ ∃ way ∈ route.ways, ∃ found, quads store way nodes n = .ok found ∧
      ∃ q ∈ found, way.far q = m := by
  cases route with
  | one way =>
    obtain ⟨found, hfound, hout⟩ := (bind_eq_ok _ _ out).mp h
    rw [pure_eq_ok] at hout
    simp [← hout, Route.ways, hfound]
  | both =>
    obtain ⟨forward, hforward, hrest⟩ := (bind_eq_ok _ _ out).mp h
    obtain ⟨backward, hbackward, hout⟩ := (bind_eq_ok _ _ out).mp hrest
    rw [pure_eq_ok] at hout
    have hmem : m ∈ out ↔ (∃ q ∈ forward, q.object = m) ∨ ∃ q ∈ backward, q.subject = m := by
      rw [← hout, List.mem_map]
      simp only [List.mem_mergeSort, List.mem_append, List.mem_map]
      constructor
      · rintro ⟨_, ⟨q, hq, rfl⟩ | ⟨q, hq, rfl⟩, rfl⟩
        · exact Or.inl ⟨q, hq, rfl⟩
        · exact Or.inr ⟨q, hq, rfl⟩
      · rintro (⟨q, hq, rfl⟩ | ⟨q, hq, rfl⟩)
        · exact ⟨_, Or.inl ⟨q, hq, rfl⟩, rfl⟩
        · exact ⟨_, Or.inr ⟨q, hq, rfl⟩, rfl⟩
    simp [hmem, Route.ways, hforward, hbackward, Way.far]

theorem firsts_cons (b : Binding) (found : List Binding) :
    firsts (b :: found) = b :: firsts (found.filter fun c => (c.node == b.node) = false) :=
  List.eraseDupsBy_cons

theorem firsts_sublist (found : List Binding) : (firsts found).Sublist found := by
  induction hn : found.length using Nat.strongRecOn generalizing found with
  | _ n ih =>
    cases found with
    | nil => exact List.Sublist.refl []
    | cons b rest =>
      rw [firsts_cons]
      have hle := List.length_filter_le (fun c : Binding => (c.node == b.node) = false) rest
      have hlt : (rest.filter fun c => (c.node == b.node) = false).length < n := by
        simp only [List.length_cons] at hn
        omega
      exact ((ih _ hlt _ rfl).trans List.filter_sublist).cons_cons b

/-- The first matches stand at the same nodes as all. -/
theorem exists_mem_firsts (found : List Binding) (n : NodeId) :
    (∃ b ∈ firsts found, b.node = n) ↔ ∃ b ∈ found, b.node = n := by
  constructor
  · rintro ⟨b, hb, rfl⟩
    exact ⟨b, (firsts_sublist found).subset hb, rfl⟩
  · induction hn : found.length using Nat.strongRecOn generalizing found with
    | _ k ih =>
      rintro ⟨b, hb, rfl⟩
      cases found with
      | nil => cases hb
      | cons c rest =>
        rw [firsts_cons]
        -- A match at the node of the first one is represented by it; any other stays in the rest.
        by_cases hc : b.node = c.node
        · exact ⟨c, List.mem_cons_self, hc.symm⟩
        · have hrest : b ∈ rest := by
            rcases List.mem_cons.mp hb with rfl | hrest
            · exact absurd rfl hc
            · exact hrest
          have hle := List.length_filter_le (fun d : Binding => (d.node == c.node) = false) rest
          have hlt : (rest.filter fun d => (d.node == c.node) = false).length < k := by
            simp only [List.length_cons] at hn
            omega
          obtain ⟨d, hd, hnode⟩ := ih _ hlt (rest.filter fun d => (d.node == c.node) = false) rfl
            ⟨b, List.mem_filter.mpr ⟨hrest, by simpa using hc⟩, rfl⟩
          exact ⟨d, List.mem_cons_of_mem c hd, hnode⟩

theorem sorted_perm (store : QuadStore) (found out : List Binding)
    (h : sorted store found = .ok out) : out.Perm found := by
  obtain ⟨keyed, hkeyed, hout⟩ := (bind_eq_ok _ _ out).mp h
  rw [pure_eq_ok] at hout
  have hpairs : keyed.map (·.2) = found := by
    have hall := (mapM_eq_ok _ found keyed).mp hkeyed
    clear hkeyed hout h
    induction hall with
    | nil => rfl
    | cons hfirst _ ih =>
      obtain ⟨t, -, hpair⟩ := (bind_eq_ok _ _ _).mp hfirst
      rw [pure_eq_ok] at hpair
      rw [List.map_cons, ih, ← hpair]
  rw [← hout, ← hpairs]
  exact (List.mergeSort_perm keyed _).map _

end Walking

end QuadGraph
