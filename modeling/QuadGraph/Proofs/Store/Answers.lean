import QuadGraph.Proofs.Step.Safety
import QuadGraph.Proofs.Store.Contents

/-! A graph in memory answers every question about its own nodes. -/
namespace QuadGraph.Graph

open Outcome

/-- The nodes of a graph are those that have a term. -/
def Knows (g : Graph) (n : NodeId) : Prop :=
  ∃ t, g.table.termOf? n = some t

theorem knows_of_reads (g : Graph) (stored : IndexedQuad) (q : Quad)
    (h : stored.Reads g.table q) (position : Position) (n : NodeId)
    (hn : stored.node? position = some n) : g.Knows n := by
  have hread := h position
  rw [hn, Option.map_some] at hread
  obtain ⟨t, -, ht⟩ := Option.map_eq_some_iff.mp hread.symm
  exact ⟨t, ht.symm⟩

theorem answers_ofQuads (quads : List Quad) :
    (ofQuads quads).toStore.Answers (ofQuads quads).Knows fun _ => False := by
  obtain ⟨hi, hg⟩ := holds_ofQuads quads
  constructor
  · exact fun n hn => (hg.consistent.mem_nodes n).mp hn
  · intro position n _ q hq
    obtain ⟨hmem, -⟩ := (mem_quadsBy _ hi position n q).mp hq
    obtain ⟨q', -, hread⟩ := hg.sound q hmem
    exact ⟨knows_of_reads _ q q' hread .subject _ rfl, knows_of_reads _ q q' hread .predicate _ rfl,
      knows_of_reads _ q q' hread .object _ rfl⟩
  · exact fun _ _ => trivial
  · rintro n ⟨t, ht⟩
    simp [QuadStore.term, toStore, ht, bind, Except.bind]

theorem looksUp_ofQuads (quads : List Quad) :
    (ofQuads quads).toStore.LooksUp (ofQuads quads).Knows fun _ => False := by
  intro t n hn
  exact ⟨t, ((holds_ofQuads quads).2.consistent.nodeOf_iff t n).mp hn⟩

end QuadGraph.Graph

namespace QuadGraph.Step

open Outcome QuadGraph.Graph

theorem within_of_execute (quads : List Quad) (path : Path) (found : List Binding)
    (hsound : path.Sound (ofQuads quads).Knows false)
    (hfound : (ofQuads quads).toStore.execute path = .ok found) :
    ∀ b ∈ found, b.Within (ofQuads quads).Knows := by
  have hmeets := Path.evaluate_meets (answers_ofQuads quads) path false hsound none nofun nofun
  rw [show path.evaluate (ofQuads quads).toStore none = .ok found from hfound] at hmeets
  exact hmeets

/-- The matches of a step over a graph in memory can be found. -/
theorem exists_execute [RegexEngine] (quads : List Quad) (v : Vocabulary) (s : Step) (path : Path)
    (hpath : s.compile (ofQuads quads).toStore v none = .ok path) :
    path.Sound (ofQuads quads).Knows false ∧
      ∃ found, (ofQuads quads).toStore.execute path = .ok found := by
  have hsound := s.compilesSoundly (looksUp_ofQuads quads) v none false nofun
  rw [hpath] at hsound
  have hmeets := Path.evaluate_meets (answers_ofQuads quads) path false hsound none nofun nofun
  obtain ⟨found, hfound, -⟩ := (meets_false _).mp hmeets
  exact ⟨hsound, found, hfound⟩

end QuadGraph.Step
