import QuadGraph.Path.Evaluation
import QuadGraph.Proofs.Store.Contents

/-! Terms that are linked by quads, and the stored quads by which a graph knows of the link. -/
namespace QuadGraph

/-- A term stands somewhere in a quad. -/
def Occurs (quads : List Quad) (t : Term) : Prop :=
  ∃ q ∈ quads, t ∈ q.terms

/-- A quad leads one way from a term to another one, over a predicate. -/
def Links (quads : List Quad) (way : Way) (s p o : Term) : Prop :=
  match way with
  | .forward => ∃ q ∈ quads, q.subject = s ∧ q.predicate = p ∧ q.object = o
  | .backward => ∃ q ∈ quads, q.object = s ∧ q.predicate = p ∧ q.subject = o

theorem occurs_of_links (quads : List Quad) (way : Way) (s p o : Term)
    (h : Links quads way s p o) : Occurs quads s ∧ Occurs quads p ∧ Occurs quads o := by
  cases way with
  | forward =>
    obtain ⟨q, hq, rfl, rfl, rfl⟩ := h
    exact ⟨⟨q, hq, by simp [Quad.terms]⟩, ⟨q, hq, by simp [Quad.terms]⟩,
      ⟨q, hq, by simp [Quad.terms]⟩⟩
  | backward =>
    obtain ⟨q, hq, rfl, rfl, rfl⟩ := h
    exact ⟨⟨q, hq, by simp [Quad.terms]⟩, ⟨q, hq, by simp [Quad.terms]⟩,
      ⟨q, hq, by simp [Quad.terms]⟩⟩

namespace Graph

variable {g : Graph} {quads : List Quad}

theorem exists_node (hg : g.Holds quads) (t : Term) (h : Occurs quads t) :
    ∃ n, g.table.termOf? n = some t :=
  (hg.terms t).mpr h

/-- Every quad by which a node is found links its term to others. -/
theorem links_of_mem_quadsBy (hi : g.Indexed) (hg : g.Holds quads) (way : Way) (n : NodeId)
    (q : IndexedQuad) (hq : q ∈ g.quadsBy way.near n) :
    ∃ s p o, g.table.termOf? n = some s ∧ g.table.termOf? q.predicate = some p ∧
      g.table.termOf? (way.far q) = some o ∧ Links quads way s p o := by
  obtain ⟨hmem, hnear⟩ := (mem_quadsBy g hi way.near n q).mp hq
  obtain ⟨q', hq', hread⟩ := hg.sound q hmem
  have hsubject : g.table.termOf? q.subject = some q'.subject := Option.some.inj (hread .subject)
  have hpredicate : g.table.termOf? q.predicate = some q'.predicate :=
    Option.some.inj (hread .predicate)
  have hobject : g.table.termOf? q.object = some q'.object := Option.some.inj (hread .object)
  -- The node is the near end of the quad, so the terms of the quad tell its term.
  cases way with
  | forward =>
    cases hnear
    exact ⟨_, _, _, hsubject, hpredicate, hobject, q', hq', rfl, rfl, rfl⟩
  | backward =>
    cases hnear
    exact ⟨_, _, _, hobject, hpredicate, hsubject, q', hq', rfl, rfl, rfl⟩

/-- A link is known by a quad under the node at which it begins. -/
theorem exists_mem_quadsBy (hi : g.Indexed) (hg : g.Holds quads) (way : Way) (n : NodeId)
    (s p o : Term) (hs : g.table.termOf? n = some s) (h : Links quads way s p o) :
    ∃ q ∈ g.quadsBy way.near n,
      g.table.termOf? q.predicate = some p ∧ g.table.termOf? (way.far q) = some o := by
  cases way with
  | forward =>
    obtain ⟨q', hq', rfl, rfl, rfl⟩ := h
    obtain ⟨q, hmem, hread⟩ := hg.complete q' hq'
    have hnear := (q.reads_at _ hg.consistent q' hread .subject n _ hs).mpr rfl
    exact ⟨q, (mem_quadsBy g hi .subject n q).mpr ⟨hmem, hnear⟩,
      Option.some.inj (hread .predicate), Option.some.inj (hread .object)⟩
  | backward =>
    obtain ⟨q', hq', rfl, rfl, rfl⟩ := h
    obtain ⟨q, hmem, hread⟩ := hg.complete q' hq'
    have hnear := (q.reads_at _ hg.consistent q' hread .object n _ hs).mpr rfl
    exact ⟨q, (mem_quadsBy g hi .object n q).mpr ⟨hmem, hnear⟩,
      Option.some.inj (hread .predicate), Option.some.inj (hread .subject)⟩

end Graph

end QuadGraph
