import QuadGraph.Proofs.Path.Matches
import QuadGraph.Proofs.Store.Answers
import QuadGraph.Proofs.Store.Representation

/-! What a graph in memory knows of the quads of a subject. Its nodes stand for terms one to one, so
what is found under the node of the subject, in the order of the store, reads like the quads that
were added about the subject, in the order in which they were added. -/
namespace QuadGraph

open Outcome

/-- The predicates of the quads about a subject, in the order in which they come up first. -/
def predicatesOf (quads : List Quad) (t : Term) : List Term :=
  ((quads.filter (·.subject = t)).map (·.predicate)).eraseDups

/-- The quads about a subject with a predicate. -/
def quadsOf (quads : List Quad) (t p : Term) : List Quad :=
  quads.filter fun q => q.subject = t ∧ q.predicate = p

theorem mem_predicatesOf (quads : List Quad) (t p : Term) :
    p ∈ predicatesOf quads t ↔ ∃ q ∈ quads, q.subject = t ∧ q.predicate = p := by
  simp only [predicatesOf, List.mem_eraseDups, List.mem_map, List.mem_filter, decide_eq_true_iff,
    and_assoc]

theorem quadsOf_ne_nil (quads : List Quad) (t p : Term) (h : p ∈ predicatesOf quads t) :
    quadsOf quads t p ≠ [] := by
  obtain ⟨q, hq, hsubject, hpredicate⟩ := (mem_predicatesOf quads t p).mp h
  exact List.ne_nil_of_mem (List.mem_filter.mpr ⟨hq, decide_eq_true ⟨hsubject, hpredicate⟩⟩)

namespace Graph

/-- The term of a node of a graph. -/
def termAt (g : Graph) (n : NodeId) : Term :=
  (g.table.termOf? n).getD (.plain "")

theorem termAt_of_termOf? (g : Graph) (n : NodeId) (t : Term) (h : g.table.termOf? n = some t) :
    g.termAt n = t := by
  rw [termAt, h, Option.getD_some]

theorem termOf?_termAt (g : Graph) (n : NodeId) (h : g.Knows n) :
    g.table.termOf? n = some (g.termAt n) := by
  obtain ⟨t, ht⟩ := h
  rw [ht, g.termAt_of_termOf? n t ht]

theorem termAt_inj (g : Graph) (hc : g.table.Consistent) (m n : NodeId) (hm : g.Knows m)
    (hn : g.Knows n) (h : g.termAt m = g.termAt n) : m = n := by
  have hm' := g.termOf?_termAt m hm
  have hn' := g.termOf?_termAt n hn
  rw [h] at hm'
  rw [← hc.nodeOf_iff] at hm' hn'
  exact Option.some.inj (hm'.symm.trans hn')

theorem term_toStore (g : Graph) (n : NodeId) (h : g.Knows n) :
    g.toStore.term n = .ok (g.termAt n) := by
  simp [QuadStore.term, toStore, g.termOf?_termAt n h, bind, Except.bind, pure, Except.pure]

theorem subject_iff_of_reads (g : Graph) (hc : g.table.Consistent) (stored : IndexedQuad) (q : Quad)
    (h : stored.Reads g.table q) (n : NodeId) (hn : g.Knows n) :
    stored.node? .subject = some n ↔ q.subject = g.termAt n := by
  have hat := stored.reads_at _ hc q h .subject n _ (g.termOf?_termAt n hn)
  exact hat.trans ⟨Option.some.inj, congrArg some⟩

theorem predicate_iff_of_reads (g : Graph) (hc : g.table.Consistent) (stored : IndexedQuad)
    (q : Quad) (h : stored.Reads g.table q) (n : NodeId) (hn : g.Knows n) :
    stored.predicate = n ↔ q.predicate = g.termAt n := by
  have hat := stored.reads_at _ hc q h .predicate n _ (g.termOf?_termAt n hn)
  simpa [IndexedQuad.node?, Quad.term?] using hat

variable (quads : List Quad)

/-- Stored quads of some kind read like the quads of this kind, one by one. -/
theorem forall₂_reads_filter (P : IndexedQuad → Bool) (Q : Quad → Bool)
    (h : ∀ stored q, stored.Reads (ofQuads quads).table q → (P stored ↔ Q q)) :
    List.Forall₂ (IndexedQuad.Reads (ofQuads quads).table)
      ((ofQuads quads).quads.toList.filter P) (quads.filter Q).eraseDups := by
  rw [eraseDups_filter]
  exact List.rel_filter (fun stored q hread => h stored q hread) (forall₂_reads_ofQuads quads)

theorem map_predicate_of_reads (g : Graph) (found : List IndexedQuad) (read : List Quad)
    (h : List.Forall₂ (IndexedQuad.Reads g.table) found read) :
    (found.map (·.predicate)).map g.termAt = read.map (·.predicate) := by
  induction h with
  | nil => rfl
  | @cons stored q _ _ hread _ ih =>
    have hterm := g.termAt_of_termOf? _ _ (Option.some.inj (hread .predicate))
    rw [List.map_cons, List.map_cons, List.map_cons, ih, hterm]

theorem map_object_of_reads (g : Graph) (found : List IndexedQuad) (read : List Quad)
    (h : List.Forall₂ (IndexedQuad.Reads g.table) found read) :
    (found.map (·.object)).map g.termAt = read.map (·.object) := by
  induction h with
  | nil => rfl
  | @cons stored q _ _ hread _ ih =>
    have hterm := g.termAt_of_termOf? _ _ (Option.some.inj (hread .object))
    rw [List.map_cons, List.map_cons, List.map_cons, ih, hterm]

theorem knows_predicates {position : Position} (n m : NodeId)
    (hm : m ∈ Walking.predicates ((ofQuads quads).quadsBy position n)) :
    (ofQuads quads).Knows m := by
  obtain ⟨hi, hg⟩ := holds_ofQuads quads
  obtain ⟨stored, hstored, rfl⟩ := (Walking.mem_predicates _ m).mp hm
  obtain ⟨hmem, -⟩ := (mem_quadsBy _ hi position n stored).mp hstored
  obtain ⟨q, -, hread⟩ := hg.sound stored hmem
  exact knows_of_reads _ stored q hread .predicate _ rfl

/-- The predicates found under a node all have terms. -/
theorem terms_predicates (position : Position) (n : NodeId) :
    let found := (ofQuads quads).quadsBy position n
    (Walking.predicates found).mapM (ofQuads quads).toStore.term =
      .ok ((Walking.predicates found).map (ofQuads quads).termAt) := by
  intro found
  rw [mapM_eq_ok, List.forall₂_map_right_iff]
  apply List.forall₂_same.mpr
  intro p hp
  exact term_toStore _ p (knows_predicates quads n p hp)

/-- The predicates found under a node are those of the quads about its term. -/
theorem map_termAt_predicates (n : NodeId) (h : (ofQuads quads).Knows n) :
    (Walking.predicates ((ofQuads quads).quadsBy .subject n)).map (ofQuads quads).termAt =
      predicatesOf quads ((ofQuads quads).termAt n) := by
  obtain ⟨hi, -⟩ := holds_ofQuads quads
  let found := (ofQuads quads).quadsBy .subject n
  have hreads : List.Forall₂ (IndexedQuad.Reads (ofQuads quads).table) found
      (quads.filter (·.subject = (ofQuads quads).termAt n)).eraseDups := by
    simp only [found, quadsBy_eq _ hi]
    apply forall₂_reads_filter
    intro stored q hread
    rw [decide_eq_true_iff, decide_eq_true_iff]
    exact subject_iff_of_reads _ (consistent_ofQuads quads) stored q hread n h
  have hinj : ∀ a ∈ found.map (·.predicate), ∀ b ∈ found.map (·.predicate),
      (ofQuads quads).termAt a = (ofQuads quads).termAt b → a = b := by
    intro a ha b hb
    exact termAt_inj _ (consistent_ofQuads quads) a b
      (knows_predicates quads n a (List.mem_eraseDups.mpr ha))
      (knows_predicates quads n b (List.mem_eraseDups.mpr hb))
  calc (Walking.predicates found).map (ofQuads quads).termAt
      = ((found.map (·.predicate)).map (ofQuads quads).termAt).eraseDups :=
        (eraseDups_map_of_inj _ _ hinj).symm
    _ = predicatesOf quads ((ofQuads quads).termAt n) := by
        rw [map_predicate_of_reads _ _ _ hreads, eraseDups_map_eraseDups, predicatesOf]

/-- The objects found under a node with a predicate are those of the quads that say so. -/
theorem map_termAt_objects (n m : NodeId) (hn : (ofQuads quads).Knows n)
    (hm : (ofQuads quads).Knows m) :
    ((((ofQuads quads).quadsBy .subject n).filter (·.predicate = m)).map (·.object)).map
        (ofQuads quads).termAt =
      (quadsOf quads ((ofQuads quads).termAt n) ((ofQuads quads).termAt m)).eraseDups.map
        (·.object) := by
  obtain ⟨hi, hg⟩ := holds_ofQuads quads
  apply map_object_of_reads
  rw [quadsBy_eq _ hi, List.filter_filter]
  apply forall₂_reads_filter
  intro stored q hread
  rw [Bool.and_eq_true, decide_eq_true_iff, decide_eq_true_iff, decide_eq_true_iff,
    predicate_iff_of_reads _ hg.consistent stored q hread m hm,
    subject_iff_of_reads _ hg.consistent stored q hread n hn]
  exact and_comm

end Graph

end QuadGraph
