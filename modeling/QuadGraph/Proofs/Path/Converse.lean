import QuadGraph.Proofs.FirstSeen
import QuadGraph.Proofs.Path.Matches
import QuadGraph.Proofs.Store.Answers
import QuadGraph.Proofs.Store.Representation

/-! Following quads from a node of a graph. However the quads are found, by their subject or by
their object, the ends are those of the stored quads in the order in which they are stored. So the
quads from one node to another are counted alike from both, and both ways at once lead along the two
ways in turn. -/
namespace QuadGraph

/-- A list is put together from two lists, each of which keeps its order. -/
inductive Interleaves {α : Type} : List α → List α → List α → Prop
  | nil : Interleaves [] [] []
  | left (x : α) {xs ys zs : List α} (h : Interleaves xs ys zs) :
    Interleaves (x :: xs) ys (x :: zs)
  | right (y : α) {xs ys zs : List α} (h : Interleaves xs ys zs) :
    Interleaves xs (y :: ys) (y :: zs)

theorem interleaves_append {α : Type} {xs ys zs : List α} (h : Interleaves xs ys zs)
    (xs' ys' : List α) : Interleaves (xs' ++ xs) (ys' ++ ys) (xs' ++ ys' ++ zs) := by
  have hright : Interleaves xs (ys' ++ ys) (ys' ++ zs) := by
    induction ys' with
    | nil => exact h
    | cons y ys' ih => exact ih.right y
  induction xs' with
  | nil => exact hright
  | cons x xs' ih => exact ih.left x

theorem interleaves_flatMap {α β : Type} (f g : α → List β) (as : List α) :
    Interleaves (as.flatMap f) (as.flatMap g) (as.flatMap fun a => f a ++ g a) := by
  induction as with
  | nil => exact .nil
  | cons a as ih => exact interleaves_append ih (f a) (g a)

/-- The end of a quad that is followed from a node, if it can be. -/
def Way.ends (way : Way) (n : NodeId) (q : IndexedQuad) : List NodeId :=
  if q.node? way.near = some n then [way.far q] else []

/-- The ends of a quad that is followed from a node. A loop can be followed both ways. -/
def Route.ends (route : Route) (n : NodeId) (q : IndexedQuad) : List NodeId :=
  route.ways.flatMap fun way => way.ends n q

/-- The stored quads whose predicate is one that some matches stand at. -/
def Graph.admitted (g : Graph) (found : List Binding) : List IndexedQuad :=
  g.quads.toList.filter fun q => ∃ b ∈ found, b.node = q.predicate

theorem Graph.pairwise_admitted (g : Graph) (h : g.Indexed) (found : List Binding) :
    (g.admitted found).Pairwise fun a b => a.id.index < b.id.index :=
  (g.pairwise_id_lt h).sublist List.filter_sublist

namespace Walking

open Outcome

variable {quads : List Quad} {via : Path} {found : List Binding}

/-- The path to all nodes comes to all predicates, so it makes no difference that it is not walked
to see what is admitted. -/
theorem admits_iff_of_evaluate
    (hvia : via.evaluate (Graph.ofQuads quads).toStore none = .ok found) :
    ∃ nodes, admitted via (via.evaluate (Graph.ofQuads quads).toStore none) = .ok nodes ∧
      ∀ q ∈ (Graph.ofQuads quads).quads,
        admits nodes q.predicate ↔ ∃ b ∈ found, b.node = q.predicate := by
  obtain ⟨-, hg⟩ := Graph.holds_ofQuads quads
  rw [hvia]
  cases hall : via.isAll with
  | true =>
    refine ⟨none, by rw [admitted, if_pos hall]; rfl, fun q hq => ?_⟩
    obtain rfl := via.eq_all_of_isAll hall
    cases hvia
    obtain ⟨q', -, hread⟩ := hg.sound q hq
    have hmem : q.predicate ∈ (Graph.ofQuads quads).table.nodes :=
      (hg.consistent.mem_nodes q.predicate).mpr
        ((Graph.ofQuads quads).knows_of_reads q q' hread .predicate _ rfl)
    exact iff_of_true rfl ⟨_, List.mem_map_of_mem hmem, rfl⟩
  | false =>
    refine ⟨some (found.map (·.node)), by rw [admitted, hall]; rfl, fun q _ => ?_⟩
    simp [admits]

theorem map_far_eq {α : Type} (way : Way) (n : NodeId) (f : IndexedQuad → NodeId → α)
    (qs : List IndexedQuad) :
    (qs.filter fun q => q.node? way.near = some n).map (fun q => f q (way.far q)) =
      qs.flatMap fun q => (way.ends n q).map (f q) := by
  rw [List.map_eq_flatMap, ← flatMap_ite_eq_filter]
  refine List.flatMap_congr fun q _ => ?_
  rw [Way.ends]
  split <;> simp_all

theorem ends_one (way : Way) (n : NodeId) : (Route.one way).ends n = way.ends n :=
  funext fun q => List.flatMap_singleton (fun way => Way.ends way n q) way

theorem ends_both (n : NodeId) (q : IndexedQuad) :
    Route.both.ends n q = Way.forward.ends n q ++ Way.backward.ends n q :=
  congrArg (Way.forward.ends n q ++ ·) (List.append_nil _)

theorem mem_ends_both (n : NodeId) (q : IndexedQuad) (m : NodeId) :
    m ∈ Route.both.ends n q ↔ q.subject = n ∧ m = q.object ∨ q.object = n ∧ m = q.subject := by
  simp [ends_both, Way.ends, Way.near, Way.far, IndexedQuad.node?]

/-- A quad leads to one end only, even if it can be followed both ways. -/
theorem eq_of_mem_ends (n : NodeId) (q : IndexedQuad) (m m' : NodeId)
    (hm : m ∈ Route.both.ends n q) (hm' : m' ∈ Route.both.ends n q) : m = m' := by
  rw [mem_ends_both] at hm hm'
  rcases hm with ⟨hsubject, rfl⟩ | ⟨hobject, rfl⟩ <;>
    rcases hm' with ⟨hsubject', rfl⟩ | ⟨hobject', rfl⟩ <;> simp_all

section Sorting

variable {qs : List IndexedQuad} (hqs : qs.Pairwise fun a b => a.id.index < b.id.index)

include hqs

/-- The number of a quad tells where it leads. -/
theorem eq_of_same_id (n : NodeId) (a b : QuadId × NodeId)
    (ha : a ∈ qs.flatMap fun q => (Route.both.ends n q).map (Prod.mk q.id))
    (hb : b ∈ qs.flatMap fun q => (Route.both.ends n q).map (Prod.mk q.id))
    (hid : a.1.index = b.1.index) : a = b := by
  obtain ⟨q, hq, hqa⟩ := List.mem_flatMap.mp ha
  obtain ⟨m, hm, rfl⟩ := List.mem_map.mp hqa
  obtain ⟨q', hq', hqb⟩ := List.mem_flatMap.mp hb
  obtain ⟨m', hm', rfl⟩ := List.mem_map.mp hqb
  have hnodup : (qs.map (·.id.index)).Nodup := (List.pairwise_map.mpr hqs).imp Nat.ne_of_lt
  obtain rfl : q = q' := List.inj_on_of_nodup_map hnodup hq hq' hid
  rw [eq_of_mem_ends n q m m' hm hm']

/-- Sorting the ends both ways by the quads that lead there takes up quad after quad. -/
theorem mergeSort_ends (n : NodeId) :
    ((qs.flatMap fun q => (Way.forward.ends n q).map (Prod.mk q.id)) ++
        qs.flatMap fun q => (Way.backward.ends n q).map (Prod.mk q.id)).mergeSort
        (fun a b => a.1.index ≤ b.1.index) =
      qs.flatMap fun q => (Route.both.ends n q).map (Prod.mk q.id) := by
  have hends (q : IndexedQuad) : (Way.forward.ends n q).map (Prod.mk q.id) ++
      (Way.backward.ends n q).map (Prod.mk q.id) = (Route.both.ends n q).map (Prod.mk q.id) := by
    rw [ends_both, List.map_append]
  have hperm := List.flatMap_append_perm qs
    (fun q => (Way.forward.ends n q).map (Prod.mk q.id))
    (fun q => (Way.backward.ends n q).map (Prod.mk q.id))
  simp only [hends] at hperm
  -- Both lists are in order and have the same members, and equal places in the order are equal.
  let le (a b : QuadId × NodeId) : Prop := a.1.index ≤ b.1.index
  refine @List.Perm.eq_of_pairwise _ le _ _ ?_ ?_ ?_ ((List.mergeSort_perm _ _).trans hperm)
  · intro a b ha hb hab hba
    rw [(List.mergeSort_perm _ _).mem_iff, hperm.mem_iff] at ha
    exact eq_of_same_id hqs n a b ha hb (Nat.le_antisymm hab hba)
  · have htrans (a b c : QuadId × NodeId) (hab : decide (a.1.index ≤ b.1.index))
        (hbc : decide (b.1.index ≤ c.1.index)) : decide (a.1.index ≤ c.1.index) :=
      decide_eq_true ((of_decide_eq_true hab).trans (of_decide_eq_true hbc))
    have htotal (a b : QuadId × NodeId) :
        decide (a.1.index ≤ b.1.index) || decide (b.1.index ≤ a.1.index) := by
      simpa using Nat.le_total a.1.index b.1.index
    exact (List.pairwise_mergeSort htrans htotal _).imp of_decide_eq_true
  · refine List.pairwise_flatMap.mpr ⟨fun q _ => ?_, hqs.imp fun hlt a ha b hb => ?_⟩
    · exact List.pairwise_map.mpr (List.pairwise_of_forall fun _ _ => le_rfl)
    · obtain ⟨m, -, rfl⟩ := List.mem_map.mp ha
      obtain ⟨m', -, rfl⟩ := List.mem_map.mp hb
      exact hlt.le

end Sorting

section Admitted

variable {nodes : Option (List NodeId)} (hadmits : ∀ q ∈ (Graph.ofQuads quads).quads,
  admits nodes q.predicate ↔ ∃ b ∈ found, b.node = q.predicate)

include hadmits

theorem quads_toStore (way : Way) (n : NodeId) :
    Walking.quads (Graph.ofQuads quads).toStore way nodes n =
      .ok (((Graph.ofQuads quads).admitted found).filter fun q => q.node? way.near = some n) := by
  obtain ⟨hi, -⟩ := Graph.holds_ofQuads quads
  have hquads : Walking.quads (Graph.ofQuads quads).toStore way nodes n =
      .ok (((Graph.ofQuads quads).quadsBy way.near n).filter fun q => admits nodes q.predicate) :=
    rfl
  rw [hquads, Graph.quadsBy_eq _ hi, List.filter_comm, Graph.admitted]
  congr 2
  refine List.filter_congr fun q hq => ?_
  rw [Bool.eq_iff_iff, hadmits q (Array.mem_toList_iff.mp hq), decide_eq_true_iff]

/-- Hops lead to the ends of the stored quads, in the order in which these are stored. -/
theorem hops_toStore (route : Route) (n : NodeId) :
    hops (Graph.ofQuads quads).toStore route nodes n =
      .ok (((Graph.ofQuads quads).admitted found).flatMap (route.ends n)) := by
  have hall (way : Way) {α : Type} (f : IndexedQuad → NodeId → α) := map_far_eq way n f
    ((Graph.ofQuads quads).admitted found)
  cases route with
  | one way =>
    rw [hops, quads_toStore hadmits, ends_one]
    exact congrArg Except.ok (by simpa using hall way fun _ => id)
  | both =>
    obtain ⟨hi, -⟩ := Graph.holds_ofQuads quads
    have hsorted := mergeSort_ends (Graph.pairwise_admitted _ hi found) n
    rw [← hall .forward fun q => Prod.mk q.id, ← hall .backward fun q => Prod.mk q.id] at hsorted
    rw [hops, quads_toStore hadmits, quads_toStore hadmits]
    refine congrArg Except.ok ((congrArg (List.map Prod.snd) hsorted).trans ?_)
    simp [List.map_flatMap]

end Admitted

end Walking

namespace Path

open Walking Outcome

variable {quads : List Quad} {via : Path} {found : List Binding}

/-- From a node a path leads to the ends of the admitted quads, in the order in which these are
stored. -/
theorem evaluate_follow_fixed
    (hvia : via.evaluate (Graph.ofQuads quads).toStore none = .ok found) (seed : Option Binding)
    (route : Route) (n : NodeId) :
    (follow (.fixed [n]) route via).evaluate (Graph.ofQuads quads).toStore seed =
      .ok ((((Graph.ofQuads quads).admitted found).flatMap (route.ends n)).map
        (Binding.start n).moved) := by
  obtain ⟨nodes, hnodes, hadmits⟩ := admits_iff_of_evaluate hvia
  let walked (b : Binding) : Except StoreError (List Binding) := do
    return (← hops (Graph.ofQuads quads).toStore route nodes b.node).map b.moved
  let ends (b : Binding) : List Binding :=
    (((Graph.ofQuads quads).admitted found).flatMap (route.ends b.node)).map b.moved
  have hends : ∀ b ∈ [Binding.start n], walked b = .ok (ends b) := by
    intro b _
    change (do return (← hops (Graph.ofQuads quads).toStore route nodes b.node).map b.moved) = _
    rw [hops_toStore hadmits]
    rfl
  calc (follow (.fixed [n]) route via).evaluate (Graph.ofQuads quads).toStore seed
      = [Binding.start n].flatMapM walked := by
        rw [evaluate, hnodes]
        rfl
    _ = .ok ([Binding.start n].flatMap ends) := flatMapM_of_forall walked ends _ hends
    _ = .ok (ends (Binding.start n)) := by rw [List.flatMap_singleton]

theorem count_ends (way : Way) (n m : NodeId) (qs : List IndexedQuad) :
    (qs.flatMap (way.ends n)).count m =
      qs.countP fun q => q.node? way.near = some n ∧ way.far q = m := by
  induction qs with
  | nil => rfl
  | cons q qs ih =>
    rw [List.flatMap_cons, List.count_append, ih, List.countP_cons, Nat.add_comm, Way.ends]
    by_cases hnear : q.node? way.near = some n
    · simp [hnear, List.count_singleton]
    · simp [hnear]

/-- The quads from one node to another are counted alike from both, and both ways at once lead along
the admitted quads in the order in which these are stored. -/
theorem follow_converse (quads : List Quad) (via : Path) (found : List Binding)
    (hvia : via.evaluate (Graph.ofQuads quads).toStore none = .ok found) (seed : Option Binding) :
    let g := Graph.ofQuads quads
    let admitted := g.quads.toList.filter fun q => ∃ b ∈ found, b.node = q.predicate
    let walk (n : NodeId) (route : Route) := (follow (.fixed [n]) route via).evaluate g.toStore seed
    (∀ x y, ∃ outs ins, walk x (.one .forward) = .ok outs ∧ walk y (.one .backward) = .ok ins ∧
      (outs.map (·.node)).count y = admitted.countP (fun q => q.subject = x ∧ q.object = y) ∧
      (ins.map (·.node)).count x = admitted.countP (fun q => q.subject = x ∧ q.object = y)) ∧
    ∀ x, ∃ outs ins both, walk x (.one .forward) = .ok outs ∧
      walk x (.one .backward) = .ok ins ∧ walk x .both = .ok both ∧ Interleaves outs ins both ∧
      admitted.Pairwise (fun a b => a.id.index < b.id.index) ∧
      both = admitted.flatMap fun q =>
        (if q.subject = x then [(Binding.start x).moved q.object] else []) ++
        (if q.object = x then [(Binding.start x).moved q.subject] else []) := by
  intro g admitted walk
  have hi : g.Indexed := (Graph.holds_ofQuads quads).1
  have hwalk (n : NodeId) (route : Route) :
      walk n route = .ok ((admitted.flatMap (route.ends n)).map (Binding.start n).moved) :=
    evaluate_follow_fixed hvia seed route n
  have hnodes (n : NodeId) (ends : List NodeId) :
      (ends.map (Binding.start n).moved).map (·.node) = ends := by
    rw [List.map_map]
    exact List.map_id ends
  refine ⟨fun x y => ⟨_, _, hwalk x _, hwalk y _, ?_, ?_⟩,
    fun x => ⟨_, _, _, hwalk x _, hwalk x _, hwalk x _, ?_, ?_, ?_⟩⟩
  · rw [hnodes, ends_one, count_ends]
    simp [Way.near, Way.far, IndexedQuad.node?]
  · rw [hnodes, ends_one, count_ends]
    simp [Way.near, Way.far, IndexedQuad.node?, and_comm]
  · simp only [List.map_flatMap, ends_both, ends_one, List.map_append]
    exact interleaves_flatMap _ _ admitted
  · exact g.pairwise_admitted hi found
  · rw [List.map_flatMap]
    refine List.flatMap_congr fun q _ => ?_
    rw [ends_both, List.map_append]
    simp only [Way.ends, Way.near, Way.far, IndexedQuad.node?, Option.some.injEq]
    split <;> split <;> rfl

/-- A loop in two graphs with labels, and a link to somebody else, who likes back. -/
theorem follow_converse_loop :
    let g := Graph.ofQuads [.ofIris "alice" "likes" "alice" "", .ofIris "alice" "likes" "bob" "",
      .ofIris "alice" "likes" "alice" "friends", .ofIris "bob" "likes" "alice" ""]
    ∃ found, evaluate g.toStore .all none = .ok found ∧
      (∃ both, (follow (.fixed [⟨0⟩]) .both .all).evaluate g.toStore none = .ok both ∧
        both.map (·.node) = [⟨0⟩, ⟨0⟩, ⟨2⟩, ⟨0⟩, ⟨0⟩, ⟨2⟩]) ∧
      ∃ outs, (follow (.fixed [⟨0⟩]) (.one .forward) .all).evaluate g.toStore none = .ok outs ∧
        (outs.map (·.node)).count ⟨0⟩ = 2 := by
  intro g
  have hall : evaluate g.toStore .all none = .ok (g.table.nodes.map .start) := rfl
  obtain ⟨hcount, hboth⟩ := follow_converse _ .all _ hall none
  obtain ⟨outs, -, houts, -, hcounted, -⟩ := hcount ⟨0⟩ ⟨0⟩
  obtain ⟨-, -, both, -, -, hwalk, -, -, rfl⟩ := hboth ⟨0⟩
  exact ⟨_, hall, ⟨_, hwalk, by decide +kernel⟩, outs, houts, hcounted.trans (by decide +kernel)⟩

end Path

end QuadGraph
