import QuadGraph.Proofs.Outcome
import QuadGraph.Proofs.Store.Numbering

/-! What a graph is to those who add quads to it: the distinct quads in the order in which they were
added first, each under its place in that order. Whatever was added before, one more quad changes
nothing, or it comes last and everything else stays as it was. -/
namespace QuadGraph

open Outcome

/-- Lists that are related one by one are so at every place, and end at the same one. -/
theorem getElem?_of_forall₂ {α β : Type} {R : α → β → Prop} {xs : List α} {ys : List β}
    (h : List.Forall₂ R xs ys) (k : Nat) :
    (xs[k]? = none ∧ ys[k]? = none) ∨ ∃ x y, xs[k]? = some x ∧ ys[k]? = some y ∧ R x y := by
  induction h generalizing k with
  | nil => exact Or.inl ⟨rfl, rfl⟩
  | @cons x y _ _ hxy _ ih =>
    cases k with
    | zero => exact Or.inr ⟨x, y, rfl, rfl, hxy⟩
    | succ k => exact ih k

namespace Graph

/-- The term of a node of a quad. -/
def termIn (g : Graph) (id : QuadId) (n : NodeId) : Except StoreError Term :=
  match g.table.termOf? n with
  | some t => .ok t
  | none => .error (.unknownQuad id)

theorem termIn_eq_ok (g : Graph) (id : QuadId) (n : NodeId) (t : Term) :
    g.termIn id n = .ok t ↔ g.table.termOf? n = some t := by
  unfold termIn
  cases g.table.termOf? n with
  | none => simp
  | some t' => simp

theorem mapM_termIn_eq_ok (g : Graph) (id : QuadId) (n : Option NodeId) (t : Option Term) :
    n.mapM (g.termIn id) = .ok t ↔ n.map g.table.termOf? = t.map some := by
  cases n with
  | none => cases t <;> simp [pure_eq_ok]
  | some n => cases t <;> cases hn : g.table.termOf? n <;> simp [termIn, hn]

/-- The quad of an identifier is read off the table, and there is none where nothing is stored. -/
theorem resolve_eq_ok_iff (g : Graph) (id : QuadId) (q : Quad) :
    g.resolve id = .ok q ↔ ∃ stored, g.quad? id = some stored ∧ stored.Reads g.table q := by
  cases hid : g.quad? id with
  | none => simp [resolve, hid]
  | some stored =>
    rw [resolve, hid]
    change (do
      return Quad.mk (← g.termIn id stored.subject) (← g.termIn id stored.predicate)
        (← g.termIn id stored.object) (← stored.label.mapM (g.termIn id))) = Except.ok q ↔ _
    obtain ⟨subject, predicate, object, label⟩ := q
    simp only [bind_eq_ok, pure_eq_ok, termIn_eq_ok, mapM_termIn_eq_ok, IndexedQuad.reads_iff]
    simp

/-- The stored quads read like the distinct quads that were added, one by one. -/
theorem forall₂_reads_ofQuads (quads : List Quad) :
    List.Forall₂ (IndexedQuad.Reads (ofQuads quads).table) (ofQuads quads).quads.toList
      quads.eraseDups := by
  induction quads using List.reverseRecOn with
  | nil => exact List.Forall₂.nil
  | append_singleton quads q ih =>
    obtain ⟨hi, hg⟩ := holds_ofQuads quads
    rw [ofQuads_concat, eraseDups_concat]
    by_cases hq : q ∈ quads
    · rw [add_of_mem _ quads hi hg q hq, if_pos hq]
      exact ih
    · obtain ⟨stored, hreads, -, hquads, -⟩ := add_of_not_mem _ quads hi hg q hq
      rw [hquads, if_neg hq, Array.toList_push]
      apply List.rel_append _ (List.Forall₂.cons hreads List.Forall₂.nil)
      -- The quads so far keep their nodes, and these keep their terms.
      apply ih.imp
      intro stored' q' hread
      apply stored'.reads_keep _ _ q' _ hread
      intro n t ht
      rw [table_add _ hg.consistent]
      exact hg.consistent.termOf?_enterAll_of q.terms t n ht

/-- The identifier of a quad is its place among the distinct quads that were added. -/
theorem resolve_ofQuads_iff (quads : List Quad) (k : Nat) (q : Quad) :
    (ofQuads quads).resolve ⟨k⟩ = .ok q ↔ quads.eraseDups[k]? = some q := by
  have hall := forall₂_reads_ofQuads quads
  rw [resolve_eq_ok_iff, quad?, ← Array.getElem?_toList]
  rcases getElem?_of_forall₂ hall k with ⟨hnone, hnone'⟩ | ⟨stored, q', hstored, hq', hread⟩
  · simp [hnone, hnone']
  · rw [hstored, hq']
    constructor
    · rintro ⟨_, ⟨⟩, hread'⟩
      have hsame : q' = q := stored.eq_of_reads _ q' q hread hread'
      rw [hsame]
    · rintro ⟨⟩
      exact ⟨stored, rfl, hread⟩

theorem size_ofQuads (quads : List Quad) : (ofQuads quads).size = quads.eraseDups.length := by
  have hlength := (forall₂_reads_ofQuads quads).length_eq
  rwa [Array.length_toList] at hlength

/-- A graph that stores the distinct ones of some quads in order, numbered from zero, and that finds
under a node, at every position, just the stored quads with this node there. -/
structure Represents (g : Graph) (quads : List Quad) : Prop where
  ids : g.quads.toList.map (·.id) = (List.range g.size).map QuadId.mk
  reads : List.Forall₂ (IndexedQuad.Reads g.table) g.quads.toList quads.eraseDups
  distinct : g.quads.toList.Pairwise fun a b => ¬ a.SameNodes b
  quadsBy (position : Position) (n : NodeId) :
    g.quadsBy position n = g.quads.toList.filter fun q => q.node? position = some n
  ascending (position : Position) (n : NodeId) :
    (g.quadsBy position n).Pairwise fun a b => a.id.index < b.id.index

/-- A graph that became another one by one more stored quad: this one comes last everywhere, and all
that was known stays known under the same nodes and identifiers. -/
structure Appends (g g' : Graph) (stored : IndexedQuad) : Prop where
  id : stored.id = ⟨g.size⟩
  quads : g'.quads = g.quads.push stored
  quadsBy (position : Position) (n : NodeId) : g'.quadsBy position n =
    g.quadsBy position n ++ if stored.node? position = some n then [stored] else []
  termOf (n : NodeId) (t : Term) : g.table.termOf? n = some t → g'.table.termOf? n = some t
  nodeOf (t : Term) (n : NodeId) : g.table.nodeOf? t = some n → g'.table.nodeOf? t = some n
  resolve (id : QuadId) (q : Quad) : g.resolve id = .ok q → g'.resolve id = .ok q

theorem ids_of_indexed (g : Graph) (h : g.Indexed) :
    g.quads.toList.map (·.id) = (List.range g.size).map QuadId.mk := by
  apply List.ext_getElem
  · simp [size]
  · intro i hi _
    rw [List.length_map] at hi
    have hget : g.quads[i]? = some g.quads.toList[i] := by
      rw [← Array.getElem?_toList, List.getElem?_eq_getElem hi]
    simpa using h.id_eq i _ hget

/-- Quads are stored in the order of their identifiers. -/
theorem pairwise_id_lt (g : Graph) (h : g.Indexed) :
    g.quads.toList.Pairwise fun a b => a.id.index < b.id.index := by
  have hindex := congrArg (List.map QuadId.index) (ids_of_indexed g h)
  simp only [List.map_map] at hindex
  have hsame : g.quads.toList.map (·.id.index) = List.range g.size := by
    simpa [Function.comp_def] using hindex
  rw [← List.pairwise_map (f := fun q : IndexedQuad => q.id.index), hsame]
  exact List.pairwise_lt_range

/-- Quads that read differently do not have the same nodes. -/
theorem pairwise_not_sameNodes (table : TermTable) (found : List IndexedQuad) (quads : List Quad)
    (h : List.Forall₂ (IndexedQuad.Reads table) found quads) (hq : quads.Nodup) :
    found.Pairwise fun a b => ¬ a.SameNodes b := by
  induction h with
  | nil => exact List.Pairwise.nil
  | @cons a q rest quads ha hrest ih =>
    obtain ⟨hnew, hnodup⟩ := List.nodup_cons.mp hq
    refine List.Pairwise.cons ?_ (ih hnodup)
    intro b hb hsame
    obtain ⟨k, hk⟩ := List.mem_iff_getElem?.mp hb
    rcases getElem?_of_forall₂ hrest k with ⟨hnone, -⟩ | ⟨b', q', hb', hq', hread⟩
    · cases hk.symm.trans hnone
    · cases hk.symm.trans hb'
      have hread' : b.Reads table q := fun position => by rw [← hsame position, ha position]
      have heq : q = q' := b.eq_of_reads table q q' hread' hread
      rw [heq] at hnew
      exact hnew (List.mem_of_getElem? hq')

theorem represents_of_holds (quads : List Quad) : (ofQuads quads).Represents quads := by
  obtain ⟨hi, -⟩ := holds_ofQuads quads
  have hids := ids_of_indexed _ hi
  have hreads := forall₂_reads_ofQuads quads
  refine ⟨hids, hreads, pairwise_not_sameNodes _ _ _ hreads (nodup_eraseDups quads),
    quadsBy_eq _ hi, ?_⟩
  intro position n
  rw [quadsBy_eq _ hi]
  -- An index lists a part of the stored quads in their order, which is that of the identifiers.
  exact (pairwise_id_lt _ hi).sublist List.filter_sublist

theorem termOf?_ofQuads_append (quads later : List Quad) (n : NodeId) (t : Term)
    (h : (ofQuads quads).table.termOf? n = some t) :
    (ofQuads (quads ++ later)).table.termOf? n = some t := by
  have hc := consistent_ofQuads quads
  rw [table_ofQuads] at h hc ⊢
  rw [List.flatMap_append, TermTable.enterAll_append]
  exact hc.termOf?_enterAll_of _ t n h

theorem resolve_ofQuads_append (quads later : List Quad) (id : QuadId) (q : Quad)
    (h : (ofQuads quads).resolve id = .ok q) :
    (ofQuads (quads ++ later)).resolve id = .ok q := by
  obtain ⟨k⟩ := id
  rw [resolve_ofQuads_iff] at h ⊢
  exact getElem?_eraseDups_append quads later k q h

theorem appends_of_push (quads : List Quad) (q : Quad) (stored : IndexedQuad)
    (h : ((ofQuads quads).add q).2.quads = (ofQuads quads).quads.push stored) :
    (ofQuads quads).Appends ((ofQuads quads).add q).2 stored := by
  obtain ⟨hi, hg⟩ := holds_ofQuads quads
  obtain ⟨hi', hg'⟩ := holds_ofQuads (quads ++ [q])
  rw [ofQuads_concat] at hi' hg'
  have hterm (n : NodeId) (t : Term) (ht : (ofQuads quads).table.termOf? n = some t) :
      ((ofQuads quads).add q).2.table.termOf? n = some t := by
    rw [← ofQuads_concat]
    exact termOf?_ofQuads_append quads [q] n t ht
  refine ⟨?_, h, ?_, hterm, ?_, ?_⟩
  · apply hi'.id_eq
    rw [h]
    exact Array.getElem?_push_size
  · intro position n
    rw [quadsBy_eq _ hi', quadsBy_eq _ hi, h, Array.toList_push, List.filter_append]
    congr 1
    simp only [List.filter_cons, List.filter_nil, decide_eq_true_iff]
  · intro t n hn
    rw [hg.consistent.nodeOf_iff] at hn
    rw [hg'.consistent.nodeOf_iff]
    exact hterm n t hn
  · intro id q' hq'
    rw [← ofQuads_concat]
    exact resolve_ofQuads_append quads [q] id q' hq'

/-- However quads have been added, a graph represents them. One more quad is refused exactly if it
was added before, and then nothing changes; otherwise it is stored behind the others under the next
identifier. -/
theorem ofQuads_represents (quads : List Quad) :
    let g := ofQuads quads
    g.Represents quads ∧ ∀ q,
      ((g.add q).1 = none ↔ q ∈ quads) ∧
      (q ∈ quads → (g.add q).2 = g) ∧
      (q ∉ quads → ∃ stored : IndexedQuad, stored.Reads (g.add q).2.table q ∧
        (g.add q).1 = some ⟨g.size⟩ ∧ g.Appends (g.add q).2 stored) := by
  intro g
  obtain ⟨hi, hg⟩ := holds_ofQuads quads
  refine ⟨represents_of_holds quads, ?_⟩
  intro q
  have hold (hq : q ∈ quads) : g.add q = (none, g) := add_of_mem g quads hi hg q hq
  refine ⟨?_, fun hq => congrArg Prod.snd (hold hq), ?_⟩
  · constructor
    · intro hnone
      by_contra hq
      obtain ⟨-, -, hsome, -⟩ := add_of_not_mem g quads hi hg q hq
      cases hnone.symm.trans hsome
    · intro hq
      exact congrArg Prod.fst (hold hq)
  · intro hq
    obtain ⟨stored, hreads, hid, hquads, -⟩ := add_of_not_mem g quads hi hg q hq
    exact ⟨stored, hreads, hid, appends_of_push quads q stored hquads⟩

/-- A graph with one quad: adding it again changes nothing, and the same quad in a graph with a
label is another one. -/
theorem ofQuads_represents_relabelled :
    let g := ofQuads [.ofIris "alice" "likes" "alice" ""]
    let again := Quad.ofIris "alice" "likes" "alice" ""
    let labelled := Quad.ofIris "alice" "likes" "alice" "friends"
    (g.add again).2 = g ∧
      ∃ stored : IndexedQuad, (g.add labelled).1 = some ⟨1⟩ ∧
        g.Appends (g.add labelled).2 stored ∧ stored.label = some ⟨2⟩ := by
  intro g again labelled
  obtain ⟨-, hadd⟩ := ofQuads_represents [.ofIris "alice" "likes" "alice" ""]
  have hsame : (g.add again).2 = g := (hadd again).2.1 (by decide)
  obtain ⟨stored, hreads, hid, happends⟩ := (hadd labelled).2.2 (by decide)
  refine ⟨hsame, stored, hid, happends, ?_⟩
  have hnode : (g.add labelled).2.table.termOf? ⟨2⟩ = some (.iri "friends") := by decide +kernel
  have hc : (g.add labelled).2.table.Consistent := consistent_ofQuads [again, labelled]
  exact (stored.reads_at _ hc labelled hreads .label _ _ hnode).mpr rfl

/-- Nodes are the distinct terms of all that was entered, numbered in the order in which they came
up first, for a table by itself as for a graph; a quad that was refused has entered its terms too.
Neither nodes nor the identifiers of quads ever change what they stand for. -/
theorem ofQuads_numbers :
    (∀ terms : List Term, let table := TermTable.empty.enterAll terms
      table.Numbers terms ∧
      (∀ t, (table.enter t).2.nodeOf? t = some (table.enter t).1) ∧
      ∀ later n t, table.termOf? n = some t → (table.enterAll later).termOf? n = some t) ∧
    ∀ quads : List Quad, let g := ofQuads quads
      g.table.Numbers (quads.flatMap Quad.terms) ∧
      (∀ later n t, g.table.termOf? n = some t →
        (ofQuads (quads ++ later)).table.termOf? n = some t) ∧
      ∀ q id later, (g.add q).1 = some id → (ofQuads (quads ++ q :: later)).resolve id = .ok q := by
  constructor
  · intro terms table
    have hc : table.Consistent := TermTable.Consistent.empty.enterAll terms
    refine ⟨TermTable.numbers_of_lists hc (TermTable.lists_enterAll terms), ?_, ?_⟩
    · intro t
      rw [(hc.enter t).nodeOf_iff]
      exact hc.termOf?_enter_self t
    · exact fun later n t ht => hc.termOf?_enterAll_of later t n ht
  · intro quads g
    obtain ⟨hi, hg⟩ := holds_ofQuads quads
    have hlists : g.table.Lists (quads.flatMap Quad.terms).eraseDups := by
      rw [show g.table = _ from table_ofQuads quads]
      exact TermTable.lists_enterAll _
    refine ⟨TermTable.numbers_of_lists hg.consistent hlists, termOf?_ofQuads_append quads, ?_⟩
    intro q id later hid
    have hq : q ∉ quads := by
      intro hq
      rw [add_of_mem g quads hi hg q hq] at hid
      cases hid
    -- The quad was given the next identifier, which is its place among the distinct quads.
    obtain ⟨-, -, hnext, -⟩ := add_of_not_mem g quads hi hg q hq
    cases hid.symm.trans hnext
    rw [List.append_cons]
    apply resolve_ofQuads_append
    rw [resolve_ofQuads_iff, eraseDups_concat, if_neg hq, size_ofQuads]
    exact List.getElem?_concat_length

/-- The terms of a quad with a label, of the same quad again and of another one. -/
theorem ofQuads_numbers_labelled :
    let quads :=
      [Quad.ofIris "alice" "likes" "bob" "friends", .ofIris "alice" "likes" "bob" "friends"]
    let q := Quad.ofIris "bob" "likes" "carol" ""
    (ofQuads quads).table.size = 4 ∧
    (ofQuads (quads ++ [q])).table.termOf? ⟨2⟩ = some (.iri "bob") ∧
    (ofQuads (quads ++ q :: quads)).resolve ⟨1⟩ = .ok q ∧
    ((TermTable.empty.enterAll [.blank "x"]).enterAll [.iri "_:x"]).termOf? ⟨0⟩ =
      some (.blank "x") := by
  intro quads q
  obtain ⟨htable, hgraph⟩ := ofQuads_numbers
  obtain ⟨hnumbers, hkeeps, hresolve⟩ := hgraph quads
  refine ⟨hnumbers.size.trans (by decide), hkeeps [q] ⟨2⟩ (.iri "bob") (by decide +kernel),
    hresolve q ⟨1⟩ quads (by decide +kernel), ?_⟩
  exact (htable [.blank "x"]).2.2 [.iri "_:x"] ⟨0⟩ (.blank "x") (by decide +kernel)

end Graph

end QuadGraph
