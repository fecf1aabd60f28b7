import QuadGraph.Store.TermTable

/-! Nodes and terms of a table. Nothing in a table makes its two maps agree with each other or with
the counter; that they do is kept from the empty table on by all that is entered. So each node has
one term and each term one node, and entering a term adds this term and nothing else. -/
namespace QuadGraph.TermTable

/-- The nodes that have terms are those that were given out, and the maps undo each other. -/
structure Consistent (table : TermTable) : Prop where
  lt_next_iff (n : NodeId) : n.index < table.next ↔ ∃ t, table.termOf? n = some t
  nodeOf_iff (t : Term) (n : NodeId) : table.nodeOf? t = some n ↔ table.termOf? n = some t

theorem Consistent.empty : TermTable.empty.Consistent := by
  constructor <;> simp [TermTable.empty, termOf?, nodeOf?]

theorem nodeOf?_push (table : TermTable) (t u : Term) :
    (table.push t).nodeOf? u = if t = u then some ⟨table.next⟩ else table.nodeOf? u := by
  simp only [nodeOf?, push, Std.ExtTreeMap.getElem?_insert, Std.LawfulEqCmp.compare_eq_iff_eq]

theorem termOf?_push (table : TermTable) (t : Term) (n : NodeId) :
    (table.push t).termOf? n = if ⟨table.next⟩ = n then some t else table.termOf? n := by
  simp only [termOf?, push, Std.ExtTreeMap.getElem?_insert, Std.LawfulEqCmp.compare_eq_iff_eq]

namespace Consistent

variable {table : TermTable} (h : table.Consistent)
include h

/-- The next node has no term yet. -/
theorem termOf?_next : table.termOf? ⟨table.next⟩ = none := by
  rw [Option.eq_none_iff_forall_ne_some]
  intro t ht
  exact absurd ((h.lt_next_iff _).mpr ⟨t, ht⟩) (Nat.lt_irrefl _)

theorem push (t : Term) (hnew : table.nodeOf? t = none) : (table.push t).Consistent := by
  constructor
  · intro n
    rw [termOf?_push]
    by_cases hn : ⟨table.next⟩ = n
    · subst hn
      simp [TermTable.push]
    · have hne : n.index ≠ table.next := fun heq => hn (by rw [← heq])
      rw [if_neg hn, ← h.lt_next_iff]
      change n.index < table.next + 1 ↔ _
      omega
  · intro u n
    rw [nodeOf?_push, termOf?_push]
    by_cases ht : t = u
    · subst ht
      rw [if_pos rfl, Option.some.injEq]
      -- No other node has this term, for then it would have been found.
      have hother : table.termOf? n ≠ some t := by
        rw [Ne, ← h.nodeOf_iff, hnew]
        nofun
      by_cases hn : ⟨table.next⟩ = n
      · simp [hn]
      · simp [hn, hother]
    · rw [if_neg ht, h.nodeOf_iff]
      by_cases hn : ⟨table.next⟩ = n
      · subst hn
        simp [h.termOf?_next, ht]
      · rw [if_neg hn]

theorem enter (t : Term) : (table.enter t).2.Consistent := by
  unfold TermTable.enter
  split
  · exact h
  · next hnew => exact h.push t hnew

theorem mem_nodes (n : NodeId) : n ∈ table.nodes ↔ ∃ t, table.termOf? n = some t := by
  rw [← h.lt_next_iff, nodes, List.mem_map]
  constructor
  · rintro ⟨i, hi, rfl⟩
    exact List.mem_range.mp hi
  · intro hlt
    exact ⟨n.index, List.mem_range.mpr hlt, rfl⟩

/-- Entering a term adds a node for this term, if there is none, and keeps all nodes. -/
theorem termOf?_enter (t u : Term) (n : NodeId) :
    (table.enter t).2.termOf? n = some u ↔
      table.termOf? n = some u ∨ (n = (table.enter t).1 ∧ u = t) := by
  unfold TermTable.enter
  split
  · next m hm =>
    have ht : table.termOf? m = some t := (h.nodeOf_iff t m).mp hm
    constructor
    · exact Or.inl
    · rintro (hu | ⟨rfl, rfl⟩)
      · exact hu
      · exact ht
  · rw [termOf?_push]
    by_cases hn : ⟨table.next⟩ = n
    · subst hn
      simp [h.termOf?_next, eq_comm]
    · simp [hn, Ne.symm hn]

theorem termOf?_enter_self (t : Term) :
    (table.enter t).2.termOf? (table.enter t).1 = some t :=
  (h.termOf?_enter t t _).mpr (Or.inr ⟨rfl, rfl⟩)

theorem termOf?_enter_of (t u : Term) (n : NodeId) (hn : table.termOf? n = some u) :
    (table.enter t).2.termOf? n = some u :=
  (h.termOf?_enter t u n).mpr (Or.inl hn)

/-- A term that is there keeps its node, and nothing is entered. -/
theorem enter_of_termOf? (t : Term) (n : NodeId) (hn : table.termOf? n = some t) :
    table.enter t = (n, table) := by
  rw [TermTable.enter, (h.nodeOf_iff t n).mpr hn]

end Consistent

/-- The table with several terms entered. -/
def enterAll (table : TermTable) (terms : List Term) : TermTable :=
  terms.foldl (fun table t => (table.enter t).2) table

namespace Consistent

variable {table : TermTable} (h : table.Consistent)
include h

theorem enterAll (terms : List Term) : (table.enterAll terms).Consistent := by
  induction terms generalizing table with
  | nil => exact h
  | cons t rest ih => exact ih (h.enter t)

theorem termOf?_enterAll_of (terms : List Term) (u : Term) (n : NodeId)
    (hn : table.termOf? n = some u) : (table.enterAll terms).termOf? n = some u := by
  induction terms generalizing table with
  | nil => exact hn
  | cons t rest ih => exact ih (h.enter t) (h.termOf?_enter_of t u n hn)

theorem exists_termOf?_enterAll (terms : List Term) (u : Term) :
    (∃ n, (table.enterAll terms).termOf? n = some u) ↔
      (∃ n, table.termOf? n = some u) ∨ u ∈ terms := by
  induction terms generalizing table with
  | nil => simp [TermTable.enterAll]
  | cons t rest ih =>
    have hfirst : (∃ n, (table.enter t).2.termOf? n = some u) ↔
        (∃ n, table.termOf? n = some u) ∨ u = t := by
      simp only [h.termOf?_enter, exists_or, exists_eq_left]
    rw [TermTable.enterAll, List.foldl_cons, ← TermTable.enterAll, ih (h.enter t), hfirst,
      List.mem_cons, or_assoc]

theorem enterAll_of_forall (terms : List Term)
    (hall : ∀ t ∈ terms, ∃ n, table.termOf? n = some t) : table.enterAll terms = table := by
  induction terms with
  | nil => rfl
  | cons t rest ih =>
    rw [List.forall_mem_cons] at hall
    obtain ⟨⟨n, hn⟩, hrest⟩ := hall
    have hstep : (table.enter t).2 = table := congrArg Prod.snd (h.enter_of_termOf? t n hn)
    rw [TermTable.enterAll, List.foldl_cons, hstep]
    exact ih hrest

end Consistent

end QuadGraph.TermTable
