import QuadGraph.Proofs.Path.Combinations
import QuadGraph.Proofs.Path.Tags
import QuadGraph.Proofs.Store.Outgoing

/-! Saving all predicates of a node at once. This goes through the choices of far ends like saving
one predicate after another does, in the same order. The names only say what is written down for a
choice, so the two agree even where several predicates share a name, or have one that is taken.
Names that no predicate has are left alone. -/
namespace QuadGraph

open Outcome Binding

/-- A store whose quads have predicates with the given names only. -/
def QuadStore.Saves (store : QuadStore) (names : List String) : Prop :=
  ∀ position n found, store.quadsBy position n = .ok found → ∀ q ∈ found, ∀ t,
    store.term q.predicate = .ok t → t.tagName ∈ names

theorem Graph.saves_ofQuads (quads : List Quad) :
    (ofQuads quads).toStore.Saves (quads.map (·.predicate.tagName)) := by
  rintro position n _ ⟨⟩ q hq t ht
  obtain ⟨hi, hg⟩ := holds_ofQuads quads
  obtain ⟨hmem, -⟩ := (mem_quadsBy _ hi position n q).mp hq
  obtain ⟨q', hq', hread⟩ := hg.sound q hmem
  have hpredicate : (ofQuads quads).table.termOf? q.predicate = some q'.predicate :=
    Option.some.inj (hread .predicate)
  rw [term_toStore _ _ ⟨_, hpredicate⟩, termAt_of_termOf? _ _ _ hpredicate] at ht
  cases ht
  exact List.mem_map_of_mem hq'

namespace Binding

/-- Choices out of some groups name nothing but by the names of the groups. -/
theorem agreeOutside_spread {names : List String} (groups : List (String × List NodeId))
    (partials : List Binding) (h : ∀ group ∈ groups, group.1 ∈ names) :
    ∀ c ∈ spread groups partials, ∃ b ∈ partials, b.AgreeOutside names c := by
  induction groups generalizing partials with
  | nil => exact fun c hc => ⟨c, hc, fun _ _ => rfl⟩
  | cons group rest ih =>
    rw [List.forall_mem_cons] at h
    intro c hc
    obtain ⟨d, hd, hdc⟩ := ih _ h.2 c hc
    obtain ⟨b, hb, hmem⟩ := List.mem_flatMap.mp hd
    obtain ⟨n, -, rfl⟩ := List.mem_map.mp hmem
    have hbd := agreeOutside_tagged b group.1 n h.1
    exact ⟨b, hb, fun name hname => (hdc name hname).trans (hbd name hname)⟩

end Binding

namespace Path

open Walking (farEnds)

/-- Saving everything names nodes after predicates only. -/
theorem inherits_saveAll {store : QuadStore} {names : List String} (source : Path) (way : Way)
    (h : store.Saves names) : (saveAll source way).Inherits store names source := by
  refine inherits_of_stage _ source rfl ?_
  rintro _ ⟨⟩ b out hout c hc
  rw [Walking.saveAll_eq] at hout
  obtain ⟨found, hfound, hrest⟩ := (bind_eq_ok _ _ out).mp hout
  obtain ⟨terms, hterms, ⟨⟩⟩ := (bind_eq_ok _ _ out).mp hrest
  split at hc
  · cases hc
  · have hnames : ∀ group ∈ farEnds way found
        ((Walking.predicates found).zip (terms.map Term.tagName)), group.1 ∈ names := by
      intro group hgroup
      obtain ⟨p, hp, rfl⟩ := List.mem_map.mp hgroup
      obtain ⟨t, ht, htag⟩ := List.mem_map.mp (List.of_mem_zip hp).2
      obtain ⟨m, hm, hterm⟩ := exists_of_forall₂_right ((mapM_eq_ok _ _ _).mp hterms) t ht
      obtain ⟨q, hq, rfl⟩ := (Walking.mem_predicates found m).mp hm
      exact htag ▸ h way.near b.node found hfound q hq t hterm
    obtain ⟨b', hb', hagree⟩ := agreeOutside_spread _ [b] hnames c hc
    cases List.mem_singleton.mp hb'
    exact hagree

/-- The path that saves some predicates one after the other, under their names. -/
def saveEach (way : Way) (named : List (NodeId × String)) (source : Path) : Path :=
  named.foldl (fun source p => .save source way (.fixed [p.1]) p.2) source

section

variable {store : QuadStore} {way : Way} {n : NodeId} {found : List IndexedQuad}
  {seed : Option Binding}

/-- Only the quads with a predicate can be followed if no other predicate is allowed. -/
theorem quads_single (p : NodeId) (hfound : store.quadsBy way.near n = .ok found) :
    Walking.quads store way (some [p]) n = .ok (found.filter (·.predicate = p)) := by
  rw [Walking.quads, hfound]
  refine congrArg Except.ok (List.filter_congr fun q _ => ?_)
  simp [Walking.admits]

/-- Saving one predicate makes a match of every match before it and every far end. -/
theorem evaluate_save_fixed (source : Path) (p : NodeId × String) (bs : List Binding)
    (hfound : store.quadsBy way.near n = .ok found) (hbs : source.evaluate store seed = .ok bs)
    (hnode : ∀ b ∈ bs, b.node = n) :
    (save source way (.fixed [p.1]) p.2).evaluate store seed =
      .ok (spread (farEnds way found [p]) bs) := by
  rw [evaluate, Walking.admitted_fixed, hbs]
  refine flatMapM_of_forall _ _ bs fun b hb => ?_
  rw [hnode b hb, quads_single p.1 hfound]
  exact congrArg Except.ok (List.map_map (g := b.tagged p.2)).symm

/-- Saving predicates one after the other makes all combinations of their far ends. -/
theorem evaluate_saveEach (named : List (NodeId × String)) (source : Path) (bs : List Binding)
    (hfound : store.quadsBy way.near n = .ok found) (hbs : source.evaluate store seed = .ok bs)
    (hnode : ∀ b ∈ bs, b.node = n) :
    (saveEach way named source).evaluate store seed =
      .ok (spread (farEnds way found named) bs) := by
  induction named generalizing source bs with
  | nil => exact hbs
  | cons p rest ih =>
    have hstep := evaluate_save_fixed source p bs hfound hbs hnode
    -- No match leaves the node, so the next predicate meets the same quads.
    have hstay : ∀ b ∈ spread (farEnds way found [p]) bs, b.node = n :=
      node_of_mem_spread bs n hnode
    exact ih _ _ hstep hstay

end

/-- Saving everything from a match in a graph is saving each of the distinct predicates of its
quads, in the order in which they come up first, under the names of their terms: the same matches in
the same order, and with the same tags. Where there are no quads there are no matches. -/
theorem evaluate_saveAll_eq_saveEach (quads : List Quad) (way : Way) (b : Binding) :
    let store := (Graph.ofQuads quads).toStore
    ∃ found terms, store.quadsBy way.near b.node = .ok found ∧
      (Walking.predicates found).mapM store.term = .ok terms ∧
      (found ≠ [] → ∃ out, (saveAll .here way).evaluate store (some b) = .ok out ∧
        (saveEach way ((Walking.predicates found).zip (terms.map Term.tagName)) .here).evaluate
          store (some b) = .ok out) ∧
      (found = [] → (saveAll .here way).evaluate store (some b) = .ok []) := by
  intro store
  let g := Graph.ofQuads quads
  let found := g.quadsBy way.near b.node
  let terms := (Walking.predicates found).map g.termAt
  have hterms : (Walking.predicates found).mapM store.term = .ok terms :=
    Graph.terms_predicates quads way.near b.node
  have hall : (saveAll .here way).evaluate store (some b) = Walking.saveAll store way b := by
    rw [evaluate, evaluate]
    change List.flatMapM (Walking.saveAll store way) [b] = _
    rw [List.flatMapM_cons, List.flatMapM_nil]
    cases Walking.saveAll store way b with
    | error e => rfl
    | ok out => exact congrArg Except.ok (List.append_nil out)
  -- Both sides make all combinations of these groups, beginning with the match itself.
  let groups := farEnds way found ((Walking.predicates found).zip (terms.map Term.tagName))
  have hsaved : Walking.saveAll store way b =
      .ok (if found.isEmpty then [] else spread groups [b]) := by
    rw [Walking.saveAll_eq, bind_eq_ok]
    exact ⟨found, rfl, (bind_eq_ok _ _ _).mpr ⟨terms, hterms, rfl⟩⟩
  refine ⟨found, terms, rfl, hterms, fun hne => ?_, fun hnil => ?_⟩
  · rw [if_neg (mt List.isEmpty_iff.mp hne)] at hsaved
    refine ⟨_, hall.trans hsaved, ?_⟩
    exact evaluate_saveEach _ .here [b] rfl rfl (List.forall_mem_singleton.mpr rfl)
  · rw [if_pos (List.isEmpty_iff.mpr hnil)] at hsaved
    exact hall.trans hsaved

/-- Someone likes the same person twice, by two graphs, and another one under a text that reads like
the name of the predicate. All of them go under one name, which stood for something else before. -/
theorem evaluate_saveAll_eq_saveEach_likes :
    let quads : List Quad := [.ofIris "alice" "likes" "bob" "work",
      .ofIris "alice" "likes" "bob" "home", ⟨.iri "alice", .plain "likes", .iri "dan", none⟩]
    let store := (Graph.ofQuads quads).toStore
    let b := (Binding.start ⟨0⟩).tagged "likes" ⟨0⟩
    let out := [b.tagged "likes" ⟨6⟩, b.tagged "likes" ⟨6⟩]
    (saveAll .here .forward).evaluate store (some b) = .ok out ∧
      (saveEach .forward [(⟨1⟩, "likes"), (⟨5⟩, "likes")] .here).evaluate store (some b) =
        .ok out := by
  intro quads store b out
  obtain ⟨found, terms, hfound, hterms, hsome, -⟩ := evaluate_saveAll_eq_saveEach quads .forward b
  cases hfound
  have hpredicates : Walking.predicates ((Graph.ofQuads quads).quadsBy Way.forward.near b.node) =
      [⟨1⟩, ⟨5⟩] := by decide +kernel
  rw [hpredicates] at hterms hsome
  have hread : [⟨1⟩, ⟨5⟩].mapM store.term = .ok [.iri "likes", .plain "likes"] := by decide +kernel
  cases hterms.symm.trans hread
  obtain ⟨out', hall, heach⟩ := hsome (by decide +kernel)
  have hout : (saveAll .here .forward).evaluate store (some b) = .ok out := by decide +kernel
  cases hall.symm.trans hout
  exact ⟨hout, heach⟩

end Path

end QuadGraph
