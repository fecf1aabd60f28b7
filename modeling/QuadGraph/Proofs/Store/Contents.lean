import Mathlib.Data.List.Basic
import Mathlib.Data.List.Induction
import QuadGraph.Proofs.Store.Terms
import QuadGraph.Store.Graph

/-! What a graph holds after quads have been added: the terms of these quads, a stored quad for
each of them, and at every position an index of the stored quads. -/
namespace QuadGraph

/-- The term at a position. -/
def Quad.term? (q : Quad) : Position → Option Term
  | .subject => some q.subject
  | .predicate => some q.predicate
  | .object => some q.object
  | .label => q.label

/-- The terms of a quad, from the subject to the label. -/
def Quad.terms (q : Quad) : List Term :=
  q.subject :: q.predicate :: q.object :: q.label.toList

/-- A stored quad whose nodes have the terms of a quad, position by position. -/
def IndexedQuad.Reads (table : TermTable) (stored : IndexedQuad) (q : Quad) : Prop :=
  ∀ position, (stored.node? position).map table.termOf? = (q.term? position).map some

namespace IndexedQuad

theorem reads_keep (table table' : TermTable) (stored : IndexedQuad) (q : Quad)
    (hkeep : ∀ n t, table.termOf? n = some t → table'.termOf? n = some t)
    (h : stored.Reads table q) : stored.Reads table' q := by
  intro position
  have hread := h position
  cases hnode : stored.node? position with
  | none => simpa [hnode] using hread
  | some n =>
    cases hterm : q.term? position with
    | none => simp [hnode, hterm] at hread
    | some t =>
      simp only [hnode, hterm, Option.map_some, Option.some.injEq] at hread ⊢
      exact hkeep n t hread

/-- The node and the term at a position of quads that are read alike. -/
theorem reads_at (table : TermTable) (hc : table.Consistent) (stored : IndexedQuad) (q : Quad)
    (h : stored.Reads table q) (position : Position) (n : NodeId) (t : Term)
    (ht : table.termOf? n = some t) :
    stored.node? position = some n ↔ q.term? position = some t := by
  have hread := h position
  constructor
  · intro hn
    cases hterm : q.term? position with
    | none => simp [hn, hterm] at hread
    | some u => simp_all
  · intro hterm
    cases hn : stored.node? position with
    | none => simp [hn, hterm] at hread
    | some m =>
      simp only [hn, hterm, Option.map_some, Option.some.injEq] at hread
      rw [← hc.nodeOf_iff] at hread ht
      exact hread.symm.trans ht

theorem reads_iff (table : TermTable) (stored : IndexedQuad) (q : Quad) :
    stored.Reads table q ↔ table.termOf? stored.subject = some q.subject ∧
      table.termOf? stored.predicate = some q.predicate ∧
      table.termOf? stored.object = some q.object ∧
      stored.label.map table.termOf? = q.label.map some := by
  constructor
  · intro h
    exact ⟨Option.some.inj (h .subject), Option.some.inj (h .predicate),
      Option.some.inj (h .object), h .label⟩
  · rintro ⟨hsubject, hpredicate, hobject, hlabel⟩ position
    cases position with
    | subject => exact congrArg some hsubject
    | predicate => exact congrArg some hpredicate
    | object => exact congrArg some hobject
    | label => exact hlabel

theorem eq_of_reads (table : TermTable) (stored : IndexedQuad) (q q' : Quad)
    (h : stored.Reads table q) (h' : stored.Reads table q') : q = q' := by
  rw [reads_iff] at h h'
  obtain ⟨hsubject, hpredicate, hobject, hlabel⟩ := h
  obtain ⟨hsubject', hpredicate', hobject', hlabel'⟩ := h'
  have hs : q.subject = q'.subject := Option.some.inj (hsubject.symm.trans hsubject')
  have hp : q.predicate = q'.predicate := Option.some.inj (hpredicate.symm.trans hpredicate')
  have ho : q.object = q'.object := Option.some.inj (hobject.symm.trans hobject')
  have hl : q.label = q'.label :=
    Option.map_injective (fun _ _ => Option.some.inj) (hlabel.symm.trans hlabel')
  cases q
  cases q'
  simp_all

/-- Quads that stand for the same nodes, whatever their identifiers. -/
def SameNodes (a b : IndexedQuad) : Prop :=
  ∀ position, a.node? position = b.node? position

theorem sameNodes_of_reads (table : TermTable) (hc : table.Consistent) (a b : IndexedQuad)
    (q : Quad) (ha : a.Reads table q) (hb : b.Reads table q) : a.SameNodes b := by
  intro position
  have hread := ha position
  cases hn : a.node? position with
  | none =>
    have hterm : (b.node? position).map table.termOf? = none := by
      rw [hb position, ← hread, hn, Option.map_none]
    exact (Option.map_eq_none_iff.mp hterm).symm
  | some n =>
    -- The term at this position has one node, and both quads have it.
    rw [hn, Option.map_some] at hread
    obtain ⟨t, hq, ht⟩ := Option.map_eq_some_iff.mp hread.symm
    exact ((b.reads_at table hc q hb position n t ht.symm).mpr hq).symm

/-- Quads with the same nodes read alike. -/
theorem reads_of_sameNodes (table : TermTable) (a b : IndexedQuad) (q : Quad) (h : a.SameNodes b)
    (ha : a.Reads table q) : b.Reads table q := by
  intro position
  rw [← h position]
  exact ha position

theorem sameNodes_iff (a b : IndexedQuad) : a.SameNodes b ↔ a.subject = b.subject ∧
    a.predicate = b.predicate ∧ a.object = b.object ∧ a.label = b.label := by
  constructor
  · intro h
    exact ⟨Option.some.inj (h .subject), Option.some.inj (h .predicate),
      Option.some.inj (h .object), h .label⟩
  · rintro ⟨hsubject, hpredicate, hobject, hlabel⟩ position
    cases position with
    | subject => exact congrArg some hsubject
    | predicate => exact congrArg some hpredicate
    | object => exact congrArg some hobject
    | label => exact hlabel

end IndexedQuad

namespace NodeIndex

theorem quads_add (index : NodeIndex) (m n : NodeId) (id : QuadId) :
    (index.add m id).quads n = if m = n then (index.quads n).push id else index.quads n := by
  simp only [quads, add, Std.ExtTreeMap.getD_insert, Std.compare_eq_iff_eq]
  split
  · next h => rw [h]
  · rfl

end NodeIndex

namespace Graph

/-- Stored quads are numbered in order, the index of every position lists, in order, the quads in
which a node stands there, and what was seen are the nodes of the stored quads. -/
structure Indexed (g : Graph) : Prop where
  id_eq (i : Nat) (q : IndexedQuad) : g.quads[i]? = some q → q.id = ⟨i⟩
  quads_eq (position : Position) (n : NodeId) :
    ((g.index position).quads n).toList =
      (g.quads.toList.filter fun q => q.node? position = some n).map (·.id)
  seen_iff (nodes : QuadNodes) : nodes ∈ g.seen ↔ ∃ q ∈ g.quads, q.nodes = nodes

/-- The table is consistent, its terms are those of the quads, and stored quads and quads read
alike. -/
structure Holds (g : Graph) (quads : List Quad) : Prop where
  consistent : g.table.Consistent
  terms (t : Term) : (∃ n, g.table.termOf? n = some t) ↔ ∃ q ∈ quads, t ∈ q.terms
  sound (stored : IndexedQuad) : stored ∈ g.quads → ∃ q ∈ quads, stored.Reads g.table q
  complete (q : Quad) : q ∈ quads → ∃ stored ∈ g.quads, stored.Reads g.table q

theorem quadsBy_eq (g : Graph) (h : g.Indexed) (position : Position) (n : NodeId) :
    g.quadsBy position n = g.quads.toList.filter fun q => q.node? position = some n := by
  have hquad : ∀ q ∈ g.quads.toList, g.quad? q.id = some q := by
    intro q hq
    obtain ⟨i, hi⟩ := List.mem_iff_getElem?.mp hq
    rw [Array.getElem?_toList] at hi
    rw [h.id_eq i q hi, quad?, hi]
  rw [quadsBy, h.quads_eq, List.filterMap_map]
  -- Looking up what an index lists gives back the quads it was made of.
  have hall : ∀ q ∈ g.quads.toList.filter fun q => q.node? position = some n,
      (g.quad? ∘ (·.id)) q = some q := fun q hq => hquad q (List.mem_of_mem_filter hq)
  rw [List.filterMap_congr hall, List.filterMap_some]

theorem mem_quadsBy (g : Graph) (h : g.Indexed) (position : Position) (n : NodeId)
    (q : IndexedQuad) : q ∈ g.quadsBy position n ↔ q ∈ g.quads ∧ q.node? position = some n := by
  rw [g.quadsBy_eq h, List.mem_filter, Array.mem_toList_iff, decide_eq_true_iff]

theorem index_push (g : Graph) (nodes : QuadNodes) (position : Position) (n : NodeId)
    (q : IndexedQuad)
    (hq : q = ⟨⟨g.size⟩, nodes.subject, nodes.predicate, nodes.object, nodes.label⟩) :
    (((g.push nodes).index position).quads n).toList =
      ((g.index position).quads n).toList ++
        if q.node? position = some n then [q.id] else [] := by
  have hadd (index : NodeIndex) (m : NodeId) : ((index.add m ⟨g.size⟩).quads n).toList =
      (index.quads n).toList ++ if m = n then [⟨g.size⟩] else [] := by
    rw [NodeIndex.quads_add]
    split <;> simp
  obtain ⟨subject, predicate, object, label⟩ := nodes
  subst hq
  cases position with
  | subject => simpa [push, index, IndexedQuad.node?] using hadd g.subjects subject
  | predicate => simpa [push, index, IndexedQuad.node?] using hadd g.predicates predicate
  | object => simpa [push, index, IndexedQuad.node?] using hadd g.objects object
  | label =>
    cases label with
    | none => simp [push, index, IndexedQuad.node?]
    | some label => simpa [push, index, IndexedQuad.node?] using hadd g.labels label

theorem mem_seen_push (g : Graph) (nodes nodes' : QuadNodes) :
    nodes' ∈ (g.push nodes).seen ↔ nodes = nodes' ∨ nodes' ∈ g.seen := by
  simp only [push, Std.ExtTreeSet.mem_insert, Std.LawfulEqCmp.compare_eq_iff_eq]

theorem indexed_empty : empty.Indexed := by
  refine ⟨by simp [empty], ?_, by simp [empty]⟩
  intro position n
  cases position <;> simp [empty, index, NodeIndex.quads]

theorem index_table (g : Graph) (table : TermTable) (position : Position) :
    { g with table }.index position = g.index position := by
  cases position <;> rfl

/-- Only the quads, their indexes and what was seen matter, not the terms. -/
theorem indexed_table (g : Graph) (table : TermTable) (h : g.Indexed) :
    { g with table }.Indexed := by
  refine ⟨h.id_eq, ?_, h.seen_iff⟩
  intro position n
  rw [index_table]
  exact h.quads_eq position n

theorem indexed_push (g : Graph) (nodes : QuadNodes) (h : g.Indexed) :
    (g.push nodes).Indexed := by
  let stored : IndexedQuad :=
    ⟨⟨g.size⟩, nodes.subject, nodes.predicate, nodes.object, nodes.label⟩
  have hquads : (g.push nodes).quads = g.quads.push stored := rfl
  constructor
  · intro i q hi
    rw [hquads, Array.getElem?_push] at hi
    split at hi
    · next hsize =>
      cases hi
      rw [hsize]
      rfl
    · exact h.id_eq i q hi
  · intro position n
    rw [g.index_push nodes position n _ rfl, h.quads_eq, hquads, Array.toList_push,
      List.filter_append, List.map_append]
    congr 1
    simp only [List.filter_cons, List.filter_nil, decide_eq_true_iff]
    split <;> simp [stored]
  · intro nodes'
    have hnew : stored.nodes = nodes := rfl
    simp only [mem_seen_push, h.seen_iff, hquads, Array.mem_push, or_and_right, exists_or,
      exists_eq_left, hnew, or_comm]

/-- Adding a quad enters its terms and then puts a quad that reads like it behind the others,
unless its nodes have been seen. -/
theorem exists_reads (g : Graph) (hc : g.table.Consistent) (q : Quad) :
    ∃ stored : IndexedQuad, stored.Reads (g.table.enterAll q.terms) q ∧
      let entered : Graph := { g with table := g.table.enterAll q.terms }
      g.add q =
        if entered.seen.contains stored.nodes then (none, entered)
        else (some ⟨g.size⟩, entered.push stored.nodes) := by
  -- Whatever is entered after a term leaves its node alone.
  have hlater (table : TermTable) (hc : table.Consistent) (t : Term) (rest : List Term) :
      (table.enterAll (t :: rest)).termOf? (table.enter t).1 = some t :=
    (hc.enter t).termOf?_enterAll_of rest t _ (hc.termOf?_enter_self t)
  obtain ⟨subject, predicate, object, label⟩ := q
  let table₁ := (g.table.enter subject).2
  let table₂ := (table₁.enter predicate).2
  let table₃ := (table₂.enter object).2
  have hc₁ : table₁.Consistent := hc.enter subject
  have hc₂ : table₂.Consistent := hc₁.enter predicate
  have hc₃ : table₃.Consistent := hc₂.enter object
  refine ⟨⟨⟨g.size⟩, (g.table.enter subject).1, (table₁.enter predicate).1,
    (table₂.enter object).1, label.map fun t => (table₃.enter t).1⟩, ?_, ?_⟩
  · intro position
    cases position with
    | subject => exact congrArg some (hlater g.table hc subject _)
    | predicate => exact congrArg some (hlater table₁ hc₁ predicate _)
    | object => exact congrArg some (hlater table₂ hc₂ object _)
    | label =>
      cases label with
      | none => rfl
      | some label => exact congrArg some (hlater table₃ hc₃ label [])
  · cases label with
    | none => rfl
    | some label => rfl

theorem seen_iff_sameNodes (g : Graph) (h : g.Indexed) (stored : IndexedQuad) :
    g.seen.contains stored.nodes ↔ ∃ q ∈ g.quads, q.SameNodes stored := by
  rw [Std.ExtTreeSet.contains_iff_mem, h.seen_iff]
  simp only [IndexedQuad.nodes, QuadNodes.mk.injEq, IndexedQuad.sameNodes_iff]

/-- With the terms of one more quad in the table, stored quads still read like the quads so far. -/
theorem reads_entered (g : Graph) (quads : List Quad) (q : Quad) (hg : g.Holds quads) :
    (∀ stored ∈ g.quads, ∃ q' ∈ quads, stored.Reads (g.table.enterAll q.terms) q') ∧
      ∀ q' ∈ quads, ∃ stored ∈ g.quads, stored.Reads (g.table.enterAll q.terms) q' := by
  have hkeep := fun n t => hg.consistent.termOf?_enterAll_of q.terms t n
  constructor
  · intro stored hmem
    obtain ⟨q', hq', hread⟩ := hg.sound stored hmem
    exact ⟨q', hq', stored.reads_keep _ _ q' hkeep hread⟩
  · intro q' hq'
    obtain ⟨stored, hmem, hread⟩ := hg.complete q' hq'
    exact ⟨stored, hmem, stored.reads_keep _ _ q' hkeep hread⟩

theorem table_add (g : Graph) (hc : g.table.Consistent) (q : Quad) :
    (g.add q).2.table = g.table.enterAll q.terms := by
  obtain ⟨stored, -, hadd⟩ := g.exists_reads hc q
  simp only at hadd
  split at hadd
  · rw [hadd]
  · rw [hadd]
    rfl

/-- With the terms of a quad in the table, its nodes are in the graph only if the quad itself was
added before. -/
theorem seen_entered_iff (g : Graph) (quads : List Quad) (hi : g.Indexed) (hg : g.Holds quads)
    (q : Quad) (stored : IndexedQuad) (h : stored.Reads (g.table.enterAll q.terms) q) :
    ({ g with table := g.table.enterAll q.terms } : Graph).seen.contains stored.nodes ↔
      q ∈ quads := by
  obtain ⟨hsound, hcomplete⟩ := reads_entered g quads q hg
  have hc := hg.consistent.enterAll q.terms
  rw [seen_iff_sameNodes _ (g.indexed_table _ hi)]
  constructor
  · rintro ⟨stored', hmem, hsame⟩
    have hread := stored.reads_of_sameNodes _ stored' q (fun position => (hsame position).symm) h
    obtain ⟨q', hq', hread'⟩ := hsound stored' hmem
    have heq : q = q' := stored'.eq_of_reads _ q q' hread hread'
    rw [heq]
    exact hq'
  · intro hq
    obtain ⟨stored', hmem, hread⟩ := hcomplete q hq
    exact ⟨stored', hmem, stored'.sameNodes_of_reads _ hc stored q hread h⟩

/-- A quad that was added before leaves the graph as it is. -/
theorem add_of_mem (g : Graph) (quads : List Quad) (hi : g.Indexed) (hg : g.Holds quads) (q : Quad)
    (hq : q ∈ quads) : g.add q = (none, g) := by
  obtain ⟨stored, hreads, hadd⟩ := g.exists_reads hg.consistent q
  have htable : g.table.enterAll q.terms = g.table := by
    apply hg.consistent.enterAll_of_forall
    intro t ht
    exact (hg.terms t).mpr ⟨q, hq, ht⟩
  simp only at hadd
  rw [if_pos ((g.seen_entered_iff quads hi hg q stored hreads).mpr hq), htable] at hadd
  exact hadd

/-- A quad that was not added before is stored behind the others and indexed. -/
theorem add_of_not_mem (g : Graph) (quads : List Quad) (hi : g.Indexed) (hg : g.Holds quads)
    (q : Quad) (hq : q ∉ quads) :
    ∃ stored : IndexedQuad, stored.Reads (g.add q).2.table q ∧ (g.add q).1 = some ⟨g.size⟩ ∧
      (g.add q).2.quads = g.quads.push stored ∧ (g.add q).2.Indexed := by
  obtain ⟨stored, hreads, hadd⟩ := g.exists_reads hg.consistent q
  simp only at hadd
  rw [if_neg ((g.seen_entered_iff quads hi hg q stored hreads).not.mpr hq)] at hadd
  let new : IndexedQuad :=
    ⟨⟨g.size⟩, stored.subject, stored.predicate, stored.object, stored.label⟩
  have hsame : stored.SameNodes new := (stored.sameNodes_iff new).mpr ⟨rfl, rfl, rfl, rfl⟩
  refine ⟨new, ?_, ?_, ?_, ?_⟩
  · rw [table_add g hg.consistent]
    exact stored.reads_of_sameNodes _ new q hsame hreads
  · rw [hadd]
  · rw [hadd]
    rfl
  · rw [hadd]
    exact indexed_push _ _ (g.indexed_table _ hi)

/-- Adding a quad keeps the indexes and adds this quad and its terms. -/
theorem holds_add (g : Graph) (quads : List Quad) (q : Quad) (hi : g.Indexed)
    (hg : g.Holds quads) : (g.add q).2.Indexed ∧ (g.add q).2.Holds (quads ++ [q]) := by
  by_cases hq : q ∈ quads
  · rw [add_of_mem g quads hi hg q hq]
    have hmem (q' : Quad) : q' ∈ quads ++ [q] ↔ q' ∈ quads := by
      simp only [List.mem_append, List.mem_singleton, or_iff_left_iff_imp]
      rintro rfl
      exact hq
    refine ⟨hi, hg.consistent, ?_, ?_, ?_⟩
    · simpa only [hmem] using hg.terms
    · simpa only [hmem] using hg.sound
    · simpa only [hmem] using hg.complete
  · obtain ⟨stored, hreads, -, hquads, hindexed⟩ := add_of_not_mem g quads hi hg q hq
    obtain ⟨hsound, hcomplete⟩ := reads_entered g quads q hg
    have htable := table_add g hg.consistent q
    rw [← htable] at hsound hcomplete
    refine ⟨hindexed, ?_, ?_, ?_, ?_⟩
    · rw [htable]
      exact hg.consistent.enterAll q.terms
    · intro t
      rw [htable, hg.consistent.exists_termOf?_enterAll, hg.terms]
      simp [or_and_right, exists_or]
    · intro other hother
      rw [hquads] at hother
      rcases Array.mem_push.mp hother with hother | rfl
      · obtain ⟨q', hq', hread⟩ := hsound other hother
        exact ⟨q', List.mem_append_left _ hq', hread⟩
      · exact ⟨q, List.mem_append_right _ List.mem_cons_self, hreads⟩
    · intro q' hq'
      rw [hquads]
      rcases List.mem_append.mp hq' with hq' | hq'
      · obtain ⟨other, hmem, hread⟩ := hcomplete q' hq'
        exact ⟨other, Array.mem_push_of_mem _ hmem, hread⟩
      · cases List.mem_singleton.mp hq'
        exact ⟨stored, Array.mem_push_self, hreads⟩

theorem holds_empty : empty.Holds [] := by
  refine ⟨.empty, ?_, by simp [empty], by simp⟩
  intro t
  simp [empty, TermTable.empty, TermTable.termOf?]

/-- A graph made of quads is indexed and holds these quads. -/
theorem holds_ofQuads (quads : List Quad) :
    (ofQuads quads).Indexed ∧ (ofQuads quads).Holds quads := by
  induction quads using List.reverseRecOn with
  | nil => exact ⟨indexed_empty, holds_empty⟩
  | append_singleton quads q ih =>
    rw [ofQuads, List.foldl_append]
    exact holds_add (ofQuads quads) quads q ih.1 ih.2

end Graph

end QuadGraph
