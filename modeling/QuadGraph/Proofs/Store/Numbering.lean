import QuadGraph.Proofs.FirstSeen
import QuadGraph.Proofs.Store.Contents

/-! How terms are numbered. The nodes of a table are the places of a row of terms: from the empty
table on, this is the row of the distinct terms of all that was entered, in the order in which they
came up first. Asking for a node or for a term is a function of the table, which only entering
changes. -/
namespace QuadGraph

namespace TermTable

/-- A table that has given out the places of a row of terms, each to the term at this place. -/
structure Lists (table : TermTable) (row : List Term) : Prop where
  next : table.next = row.length
  termOf (k : Nat) : table.termOf? ⟨k⟩ = row[k]?

theorem Lists.mem_iff {table : TermTable} {row : List Term} (h : table.Lists row) (t : Term) :
    t ∈ row ↔ ∃ n, table.termOf? n = some t := by
  rw [List.mem_iff_getElem?]
  constructor
  · rintro ⟨k, hk⟩
    exact ⟨⟨k⟩, (h.termOf k).trans hk⟩
  · rintro ⟨n, hn⟩
    exact ⟨n.index, (h.termOf n.index).symm.trans hn⟩

/-- Entering a term puts it at the end of the row, unless it stands there already. -/
theorem Lists.enter {table : TermTable} {row : List Term} (hc : table.Consistent)
    (h : table.Lists row) (t : Term) :
    (table.enter t).2.Lists (if t ∈ row then row else row ++ [t]) := by
  by_cases ht : t ∈ row
  · obtain ⟨n, hn⟩ := (h.mem_iff t).mp ht
    rw [if_pos ht, hc.enter_of_termOf? t n hn]
    exact h
  · have hnew : table.nodeOf? t = none := by
      rw [Option.eq_none_iff_forall_ne_some]
      intro n hn
      exact ht ((h.mem_iff t).mpr ⟨n, (hc.nodeOf_iff t n).mp hn⟩)
    have hpush : (table.enter t).2 = table.push t := by rw [TermTable.enter, hnew]
    rw [if_neg ht, hpush]
    constructor
    · rw [List.length_append, ← h.next]
      rfl
    · intro k
      rw [termOf?_push, h.termOf, h.next, getElem?_concat]
      exact if_congr (by rw [NodeId.mk.injEq]) rfl rfl

theorem enterAll_append (table : TermTable) (terms later : List Term) :
    table.enterAll (terms ++ later) = (table.enterAll terms).enterAll later :=
  List.foldl_append

/-- From the empty table on, the distinct terms are entered, each where it comes up first. -/
theorem lists_enterAll (terms : List Term) : (empty.enterAll terms).Lists terms.eraseDups := by
  induction terms using List.reverseRecOn with
  | nil => exact ⟨rfl, fun k => by simp [enterAll, empty, termOf?]⟩
  | append_singleton terms t ih =>
    have hlast : empty.enterAll (terms ++ [t]) = ((empty.enterAll terms).enter t).2 :=
      empty.enterAll_append terms [t]
    have hstep := ih.enter (Consistent.empty.enterAll terms) t
    rw [hlast, eraseDups_concat]
    simpa only [List.mem_eraseDups] using hstep

/-- A table whose nodes are the places of the distinct terms of a sequence, and which finds the node
of every one of these terms. -/
structure Numbers (table : TermTable) (terms : List Term) : Prop where
  size : table.size = terms.eraseDups.length
  termOf (k : Nat) : table.termOf? ⟨k⟩ = terms.eraseDups[k]?
  nodes : table.nodes = (List.range terms.eraseDups.length).map NodeId.mk
  nodeOf (t : Term) (n : NodeId) : table.nodeOf? t = some n ↔ table.termOf? n = some t

theorem numbers_of_lists {table : TermTable} {terms : List Term} (hc : table.Consistent)
    (h : table.Lists terms.eraseDups) : table.Numbers terms := by
  refine ⟨h.next, h.termOf, ?_, hc.nodeOf_iff⟩
  rw [nodes, h.next]

end TermTable

namespace Graph

theorem ofQuads_concat (quads : List Quad) (q : Quad) :
    ofQuads (quads ++ [q]) = ((ofQuads quads).add q).2 := by
  rw [ofQuads, List.foldl_append]
  rfl

/-- Adding quads enters their terms, those of quads that are there already included. -/
theorem table_ofQuads (quads : List Quad) :
    (ofQuads quads).table = TermTable.empty.enterAll (quads.flatMap Quad.terms) := by
  induction quads using List.reverseRecOn with
  | nil => rfl
  | append_singleton quads q ih =>
    rw [ofQuads_concat, table_add _ (holds_ofQuads quads).2.consistent, ih,
      ← TermTable.enterAll_append, List.flatMap_append, List.flatMap_singleton]

theorem consistent_ofQuads (quads : List Quad) : (ofQuads quads).table.Consistent :=
  (holds_ofQuads quads).2.consistent

end Graph

end QuadGraph
