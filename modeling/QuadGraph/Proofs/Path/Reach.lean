import QuadGraph.Proofs.Path.Relative
import QuadGraph.Proofs.Path.Matches
import QuadGraph.Proofs.Store.Links

/-! Where paths lead in a graph: the set of terms at whose nodes their matches stand. How often and
in which order the matches come, and what they have named, does not matter. -/
namespace QuadGraph

open Outcome Walking

/-- Matches that stand at the nodes of certain terms, at all of these and at no others. -/
structure Covers (g : Graph) (found : List Binding) (D : Term → Prop) : Prop where
  sound (b : Binding) : b ∈ found → ∃ t, D t ∧ g.table.termOf? b.node = some t
  complete (t : Term) : D t → ∃ b ∈ found, g.table.termOf? b.node = some t

/-- A path that can be walked and whose matches stand at the nodes of certain terms. -/
def Path.Reaches (g : Graph) (p : Path) (D : Term → Prop) : Prop :=
  ∃ found, p.evaluate g.toStore none = .ok found ∧ Covers g found D

/-- A quad leads along a route from a term to another one, over a predicate. -/
def Leads (quads : List Quad) (route : Route) (s p o : Term) : Prop :=
  ∃ way ∈ route.ways, Links quads way s p o

variable {g : Graph} {quads : List Quad} {found : List Binding} {D : Term → Prop}

theorem covers_of_nodes (found' : List Binding) (h : Covers g found D)
    (hnodes : ∀ n, (∃ b ∈ found', b.node = n) ↔ ∃ b ∈ found, b.node = n) :
    Covers g found' D := by
  constructor
  · intro b hb
    obtain ⟨b', hb', hnode⟩ := (hnodes b.node).mp ⟨b, hb, rfl⟩
    rw [← hnode]
    exact h.sound b' hb'
  · intro t ht
    obtain ⟨b, hb, hterm⟩ := h.complete t ht
    obtain ⟨b', hb', hnode⟩ := (hnodes b.node).mpr ⟨b, hb, rfl⟩
    exact ⟨b', hb', by rw [hnode, hterm]⟩

theorem covers_filter (keep : Binding → Bool) (K : Term → Prop) (h : Covers g found D)
    (hkeep : ∀ b t, g.table.termOf? b.node = some t → (keep b ↔ K t)) :
    Covers g (found.filter keep) fun t => D t ∧ K t := by
  constructor
  · intro b hb
    obtain ⟨hmem, hk⟩ := List.mem_filter.mp hb
    obtain ⟨t, ht, hterm⟩ := h.sound b hmem
    exact ⟨t, ⟨ht, (hkeep b t hterm).mp hk⟩, hterm⟩
  · rintro t ⟨ht, hk⟩
    obtain ⟨b, hb, hterm⟩ := h.complete t ht
    exact ⟨b, List.mem_filter.mpr ⟨hb, (hkeep b t hterm).mpr hk⟩, hterm⟩

/-- Going on from every match, to terms that depend on the term there. -/
theorem covers_flatMapM (next : Binding → Except StoreError (List Binding))
    (R : Term → Term → Prop) (h : Covers g found D)
    (hnext : ∀ b s, g.table.termOf? b.node = some s →
      ∃ out, next b = .ok out ∧ Covers g out (R s)) :
    ∃ out, found.flatMapM next = .ok out ∧ Covers g out fun o => ∃ s, D s ∧ R s o := by
  obtain ⟨out, hout⟩ := exists_flatMapM_eq_ok next found fun b hb => by
    obtain ⟨s, -, hterm⟩ := h.sound b hb
    obtain ⟨ys, hys, -⟩ := hnext b s hterm
    exact ⟨ys, hys⟩
  refine ⟨out, hout, ?_, ?_⟩
  · intro b hb
    obtain ⟨b', hb', ys, hys, hmem⟩ := (mem_flatMapM next found out hout b).mp hb
    obtain ⟨s, hs, hterm⟩ := h.sound b' hb'
    obtain ⟨zs, hzs, hcover⟩ := hnext b' s hterm
    cases hys.symm.trans hzs
    obtain ⟨o, ho, hterm'⟩ := hcover.sound b hmem
    exact ⟨o, ⟨s, hs, ho⟩, hterm'⟩
  · rintro o ⟨s, hs, ho⟩
    obtain ⟨b, hb, hterm⟩ := h.complete s hs
    obtain ⟨ys, hys, hcover⟩ := hnext b s hterm
    obtain ⟨b', hb', hterm'⟩ := hcover.complete o ho
    exact ⟨b', (mem_flatMapM next found out hout b').mpr ⟨b, hb, ys, hys, hb'⟩, hterm'⟩

/-- Matches stand at the node of a term exactly if the term is covered. -/
theorem covers_iff (hc : g.table.Consistent) (h : Covers g found D) (n : NodeId) (t : Term)
    (ht : g.table.termOf? n = some t) : (∃ b ∈ found, b.node = n) ↔ D t := by
  constructor
  · rintro ⟨b, hb, rfl⟩
    obtain ⟨u, hu, hterm⟩ := h.sound b hb
    cases ht.symm.trans hterm
    exact hu
  · intro hD
    obtain ⟨b, hb, hterm⟩ := h.complete t hD
    rw [← hc.nodeOf_iff] at ht hterm
    exact ⟨b, hb, Option.some.inj (hterm.symm.trans ht)⟩

namespace Path

theorem reaches_congr (p : Path) (D D' : Term → Prop) (h : p.Reaches g D)
    (hD : ∀ t, D t ↔ D' t) : p.Reaches g D' := by
  rwa [funext fun t => propext (hD t)] at h

theorem occurs_of_reaches (hg : g.Holds quads) (p : Path) (D : Term → Prop)
    (h : p.Reaches g D) (t : Term) (ht : D t) : Occurs quads t := by
  obtain ⟨found, -, hcover⟩ := h
  obtain ⟨b, -, hterm⟩ := hcover.complete t ht
  exact (hg.terms t).mp ⟨b.node, hterm⟩

theorem reaches_all (hg : g.Holds quads) : Reaches g .all (Occurs quads) := by
  refine ⟨_, rfl, ?_, ?_⟩
  · intro b hb
    obtain ⟨n, hn, rfl⟩ := List.mem_map.mp hb
    obtain ⟨t, ht⟩ := (hg.consistent.mem_nodes n).mp hn
    exact ⟨t, (hg.terms t).mp ⟨n, ht⟩, ht⟩
  · intro t h
    obtain ⟨n, hn⟩ := g.exists_node hg t h
    exact ⟨.start n, List.mem_map.mpr ⟨n, (hg.consistent.mem_nodes n).mpr ⟨t, hn⟩, rfl⟩, hn⟩

theorem reaches_fixed (hg : g.Holds quads) (terms : List Term) :
    Reaches g (.fixed (terms.filterMap g.table.nodeOf?)) fun t => Occurs quads t ∧ t ∈ terms := by
  refine ⟨_, rfl, ?_, ?_⟩
  · intro b hb
    obtain ⟨n, hn, rfl⟩ := List.mem_map.mp hb
    obtain ⟨t, ht, hnode⟩ := List.mem_filterMap.mp hn
    rw [hg.consistent.nodeOf_iff] at hnode
    exact ⟨t, ⟨(hg.terms t).mp ⟨n, hnode⟩, ht⟩, hnode⟩
  · rintro t ⟨ho, ht⟩
    obtain ⟨n, hn⟩ := g.exists_node hg t ho
    have hnode := (hg.consistent.nodeOf_iff t n).mpr hn
    exact ⟨.start n, List.mem_map.mpr ⟨n, List.mem_filterMap.mpr ⟨t, ht, hnode⟩, rfl⟩, hn⟩

/-- The predicates that may be followed are those that the path to them reaches. -/
theorem admitted_of_reaches (hc : g.table.Consistent) (via : Path) (hv : via.Reaches g D) :
    ∃ nodes, admitted via (via.evaluate g.toStore none) = .ok nodes ∧
      ∀ n t, g.table.termOf? n = some t → (admits nodes n ↔ D t) := by
  obtain ⟨found, hfound, hcover⟩ := hv
  by_cases hall : via.isAll = true
  · -- The path to all nodes is not walked for this; it would come to every node with a term.
    refine ⟨none, by simp [admitted, hall, pure, Except.pure], ?_⟩
    intro n t ht
    obtain rfl := via.eq_all_of_isAll hall
    have hn : ∃ b ∈ found, b.node = n := by
      cases hfound
      exact ⟨.start n, List.mem_map.mpr ⟨n, (hc.mem_nodes n).mpr ⟨t, ht⟩, rfl⟩, rfl⟩
    simpa [admits] using (covers_iff hc hcover n t ht).mp hn
  · refine ⟨some (found.map (·.node)), by simp [admitted, hall, hfound, bind, Except.bind, pure,
      Except.pure], ?_⟩
    intro n t ht
    rw [← covers_iff hc hcover n t ht]
    simp [admits]

/-- The quads that can be followed from a node stand for the links of its term. -/
theorem exists_mem_quads (hi : g.Indexed) (hg : g.Holds quads) (way : Way)
    (nodes : Option (List NodeId)) (P : Term → Prop)
    (hP : ∀ n t, g.table.termOf? n = some t → (admits nodes n ↔ P t)) (n : NodeId) :
    ∃ found, Walking.quads g.toStore way nodes n = .ok found ∧
      (∀ q ∈ found, ∃ s p o, g.table.termOf? n = some s ∧ P p ∧ Links quads way s p o ∧
        g.table.termOf? (way.far q) = some o) ∧
      ∀ s p o, g.table.termOf? n = some s → P p → Links quads way s p o →
        ∃ q ∈ found, g.table.termOf? (way.far q) = some o := by
  refine ⟨(g.quadsBy way.near n).filter fun q => admits nodes q.predicate, rfl, ?_, ?_⟩
  · intro q hq
    obtain ⟨hmem, hadmits⟩ := List.mem_filter.mp hq
    obtain ⟨s, p, o, hs, hp, ho, hlink⟩ := g.links_of_mem_quadsBy hi hg way n q hmem
    exact ⟨s, p, o, hs, (hP q.predicate p hp).mp hadmits, hlink, ho⟩
  · intro s p o hs hpredicate hlink
    obtain ⟨q, hmem, hp, ho⟩ := g.exists_mem_quadsBy hi hg way n s p o hs hlink
    exact ⟨q, List.mem_filter.mpr ⟨hmem, (hP q.predicate p hp).mpr hpredicate⟩, ho⟩

theorem covers_hops (hi : g.Indexed) (hg : g.Holds quads) (route : Route)
    (nodes : Option (List NodeId)) (P : Term → Prop)
    (hP : ∀ n t, g.table.termOf? n = some t → (admits nodes n ↔ P t)) (b : Binding) (s : Term)
    (hs : g.table.termOf? b.node = some s) :
    ∃ out, (do return (← hops g.toStore route nodes b.node).map b.moved) = .ok out ∧
      Covers g out fun o => ∃ p, P p ∧ Leads quads route s p o := by
  -- The store cannot fail, so there are hops; their order is not looked at.
  have hhops : ∃ ends, hops g.toStore route nodes b.node = .ok ends := by
    cases route with
    | one way => exact ⟨_, rfl⟩
    | both => exact ⟨_, rfl⟩
  obtain ⟨ends, hends⟩ := hhops
  have hmem := mem_hops g.toStore route nodes b.node ends hends
  refine ⟨ends.map b.moved, by rw [hends]; rfl, ?_, ?_⟩
  · intro b' hb'
    obtain ⟨m, hm, rfl⟩ := List.mem_map.mp hb'
    obtain ⟨way, hway, found, hfound, q, hq, rfl⟩ := (hmem m).mp hm
    obtain ⟨found', hfound', hlinks, -⟩ := exists_mem_quads hi hg way nodes P hP b.node
    cases hfound.symm.trans hfound'
    obtain ⟨s', p, o, hs', hp, hlink, ho⟩ := hlinks q hq
    cases hs.symm.trans hs'
    exact ⟨o, ⟨p, hp, way, hway, hlink⟩, ho⟩
  · rintro o ⟨p, hp, way, hway, hlink⟩
    obtain ⟨found, hfound, -, hquads⟩ := exists_mem_quads hi hg way nodes P hP b.node
    obtain ⟨q, hq, ho⟩ := hquads s p o hs hp hlink
    exact ⟨b.moved (way.far q),
      List.mem_map.mpr ⟨_, (hmem _).mpr ⟨way, hway, found, hfound, q, hq, rfl⟩, rfl⟩, ho⟩

theorem reaches_follow (hi : g.Indexed) (hg : g.Holds quads) (source via : Path) (route : Route)
    (S P : Term → Prop) (hs : source.Reaches g S) (hv : via.Reaches g P) :
    (follow source route via).Reaches g fun o => ∃ s, S s ∧ ∃ p, P p ∧ Leads quads route s p o := by
  obtain ⟨found, hfound, hcover⟩ := hs
  obtain ⟨nodes, hnodes, hadmits⟩ := admitted_of_reaches hg.consistent via hv
  obtain ⟨out, hout, hcover'⟩ := covers_flatMapM _ _ hcover
    (covers_hops hi hg route nodes P hadmits)
  refine ⟨out, ?_, hcover'⟩
  simp only [evaluate, hnodes, hfound]
  exact hout

theorem covers_predicates (hi : g.Indexed) (hg : g.Holds quads) (way : Way) (b : Binding)
    (s : Term) (hs : g.table.termOf? b.node = some s) :
    Covers g ((Walking.predicates (g.quadsBy way.near b.node)).map b.moved)
      fun p => ∃ o, Links quads way s p o := by
  constructor
  · intro b' hb'
    obtain ⟨n, hn, rfl⟩ := List.mem_map.mp hb'
    obtain ⟨q, hq, rfl⟩ := (mem_predicates _ n).mp hn
    obtain ⟨s', p, o, hs', hp, -, hlink⟩ := g.links_of_mem_quadsBy hi hg way b.node q hq
    cases hs.symm.trans hs'
    exact ⟨p, ⟨o, hlink⟩, hp⟩
  · rintro p ⟨o, hlink⟩
    obtain ⟨q, hq, hp, -⟩ := g.exists_mem_quadsBy hi hg way b.node s p o hs hlink
    exact ⟨b.moved q.predicate,
      List.mem_map.mpr ⟨_, (mem_predicates _ _).mpr ⟨q, hq, rfl⟩, rfl⟩, hp⟩

theorem reaches_predicates (hi : g.Indexed) (hg : g.Holds quads) (source : Path) (way : Way)
    (S : Term → Prop) (hs : source.Reaches g S) :
    (predicates source way).Reaches g fun p => ∃ s, S s ∧ ∃ o, Links quads way s p o := by
  obtain ⟨found, hfound, hcover⟩ := hs
  obtain ⟨out, hout, hcover'⟩ := covers_flatMapM _ _ hcover
    fun b s hterm => ⟨_, rfl, covers_predicates hi hg way b s hterm⟩
  refine ⟨out, ?_, hcover'⟩
  simp only [evaluate, hfound]
  exact hout

/-- A quad can be followed to a target exactly if the term is linked to one. -/
theorem any_quads_iff (hi : g.Indexed) (hg : g.Holds quads) (way : Way)
    (nodes targets : Option (List NodeId)) (P T : Term → Prop)
    (hP : ∀ n t, g.table.termOf? n = some t → (admits nodes n ↔ P t))
    (hT : ∀ n t, g.table.termOf? n = some t → (admits targets n ↔ T t)) (n : NodeId) (s : Term)
    (hs : g.table.termOf? n = some s) :
    ((g.quadsBy way.near n).filter fun q => admits nodes q.predicate).any
        (fun q => admits targets (way.far q)) ↔
      ∃ p o, P p ∧ Links quads way s p o ∧ T o := by
  obtain ⟨found, hfound, hsound, hcomplete⟩ := exists_mem_quads hi hg way nodes P hP n
  cases hfound
  rw [List.any_eq_true]
  constructor
  · rintro ⟨q, hq, htarget⟩
    obtain ⟨s', p, o, hs', hp, hlink, ho⟩ := hsound q hq
    cases hs.symm.trans hs'
    exact ⟨p, o, hp, hlink, (hT _ o ho).mp htarget⟩
  · rintro ⟨p, o, hp, hlink, htarget⟩
    obtain ⟨q, hq, ho⟩ := hcomplete s p o hs hp hlink
    exact ⟨q, hq, (hT _ o ho).mpr htarget⟩

theorem reaches_has (hi : g.Indexed) (hg : g.Holds quads) (source via : Path) (way : Way)
    (targets : Option (List NodeId)) (S P T : Term → Prop) (hs : source.Reaches g S)
    (hv : via.Reaches g P)
    (hT : ∀ n t, g.table.termOf? n = some t → (admits targets n ↔ T t)) :
    (has source way via targets).Reaches g fun s =>
      S s ∧ ∃ p o, P p ∧ Links quads way s p o ∧ T o := by
  obtain ⟨found, hfound, hcover⟩ := hs
  obtain ⟨nodes, hnodes, hadmits⟩ := admitted_of_reaches hg.consistent via hv
  have hfilter := covers_filter _ _ hcover fun b s hterm =>
    any_quads_iff hi hg way nodes targets P T hadmits hT b.node s hterm
  refine ⟨_, ?_, hfilter⟩
  rw [← flatMap_ite]
  simp only [evaluate, hnodes, hfound]
  exact flatMapM_pure _ found

theorem reaches_isOneOf (source : Path) (nodes : List NodeId) (S T : Term → Prop)
    (hs : source.Reaches g S)
    (hT : ∀ n t, g.table.termOf? n = some t → (n ∈ nodes ↔ T t)) :
    (isOneOf source nodes).Reaches g fun t => S t ∧ T t := by
  obtain ⟨found, hfound, hcover⟩ := hs
  refine ⟨_, ?_, covers_filter (fun b => nodes.contains b.node) T hcover fun b t hterm => ?_⟩
  · simp only [evaluate, hfound]
    rfl
  · rw [List.contains_iff_mem]
    exact hT b.node t hterm

theorem reaches_tag (source : Path) (name : String) (S : Term → Prop) (hs : source.Reaches g S) :
    (tag source name).Reaches g S := by
  obtain ⟨found, hfound, hcover⟩ := hs
  refine ⟨found.map fun b => b.tagged name b.node, ?_, covers_of_nodes _ hcover fun n => ?_⟩
  · simp only [evaluate, hfound]
    rfl
  · simp [Binding.tagged]

theorem reaches_unique (source : Path) (S : Term → Prop) (hs : source.Reaches g S) :
    (unique source).Reaches g S := by
  obtain ⟨found, hfound, hcover⟩ := hs
  refine ⟨firsts found, ?_, covers_of_nodes _ hcover (exists_mem_firsts found)⟩
  simp only [evaluate, hfound]
  rfl

theorem reaches_order (source : Path) (S : Term → Prop) (hs : source.Reaches g S) :
    (order source).Reaches g S := by
  obtain ⟨found, hfound, hcover⟩ := hs
  have hsorted : ∃ out, sorted g.toStore found = .ok out := by
    obtain ⟨keyed, hkeyed⟩ := exists_mapM_eq_ok
      (fun b : Binding => do return (← g.toStore.term b.node, b)) found fun b hb => by
        obtain ⟨t, -, hterm⟩ := hcover.sound b hb
        exact ⟨(t, b), by simp [QuadStore.term, Graph.toStore, hterm, bind, Except.bind, pure,
          Except.pure]⟩
    exact ⟨_, by rw [sorted, hkeyed]; rfl⟩
  obtain ⟨out, hout⟩ := hsorted
  refine ⟨out, ?_, covers_of_nodes _ hcover fun n => ?_⟩
  · simp only [evaluate, hfound]
    exact hout
  · simp only [(sorted_perm _ found out hout).mem_iff]

theorem reaches_union (left right : Path) (L R : Term → Prop) (hl : left.Reaches g L)
    (hr : right.Reaches g R) : (union left right).Reaches g fun t => L t ∨ R t := by
  obtain ⟨ls, hls, hleft⟩ := hl
  obtain ⟨rs, hrs, hright⟩ := hr
  refine ⟨ls ++ rs, ?_, ?_, ?_⟩
  · simp only [evaluate, hls, hrs]
    rfl
  · intro b hb
    rcases List.mem_append.mp hb with hb | hb
    · obtain ⟨t, ht, hterm⟩ := hleft.sound b hb
      exact ⟨t, Or.inl ht, hterm⟩
    · obtain ⟨t, ht, hterm⟩ := hright.sound b hb
      exact ⟨t, Or.inr ht, hterm⟩
  · rintro t (ht | ht)
    · obtain ⟨b, hb, hterm⟩ := hleft.complete t ht
      exact ⟨b, List.mem_append_left _ hb, hterm⟩
    · obtain ⟨b, hb, hterm⟩ := hright.complete t ht
      exact ⟨b, List.mem_append_right _ hb, hterm⟩

theorem any_iff (hc : g.table.Consistent) (h : Covers g found D) (n : NodeId) (t : Term)
    (ht : g.table.termOf? n = some t) : (found.any fun b => b.node = n) ↔ D t := by
  rw [List.any_eq_true, ← covers_iff hc h n t ht]
  simp

theorem reaches_except (hc : g.table.Consistent) (left right : Path) (L R : Term → Prop)
    (hl : left.Reaches g L) (hr : right.Reaches g R) :
    (Path.except left right).Reaches g fun t => L t ∧ ¬ R t := by
  obtain ⟨ls, hls, hleft⟩ := hl
  obtain ⟨rs, hrs, hright⟩ := hr
  refine ⟨_, ?_, covers_filter (fun b => !rs.any fun c => c.node = b.node) _ hleft ?_⟩
  · simp only [evaluate, hls, hrs]
    rfl
  · intro b t hterm
    rw [Bool.not_eq_true', ← Bool.not_eq_true, any_iff hc hright b.node t hterm]

theorem reaches_intersect (hc : g.table.Consistent) (left right : Path) (L R : Term → Prop)
    (hl : left.Reaches g L) (hr : right.Reaches g R) :
    (intersect left right).Reaches g fun t => L t ∧ R t := by
  obtain ⟨ls, hls, hleft⟩ := hl
  obtain ⟨rs, hrs, hright⟩ := hr
  -- Taking over tags moves no match, so the nodes are those of a filter.
  have hkept := covers_filter (fun b => rs.any fun c => c.node = b.node) R hleft
    fun b t hterm => any_iff hc hright b.node t hterm
  refine ⟨ls.filterMap fun b => (rs.find? fun c => c.node = b.node).map b.absorb, ?_,
    covers_of_nodes _ hkept fun n => ?_⟩
  · simp only [evaluate, hls, hrs]
    rfl
  · simp only [List.mem_filterMap, List.mem_filter, Option.map_eq_some_iff]
    constructor
    · rintro ⟨_, ⟨b, hb, c, hc, rfl⟩, rfl⟩
      have hnode : decide (c.node = b.node) = true := by simpa using List.find?_some hc
      exact ⟨b, ⟨hb, List.any_eq_true.mpr ⟨c, List.mem_of_find?_eq_some hc, hnode⟩⟩, rfl⟩
    · rintro ⟨b, ⟨hb, hany⟩, rfl⟩
      obtain ⟨c, hc⟩ := Option.isSome_iff_exists.mp (List.find?_isSome.mpr
        (List.any_eq_true.mp hany))
      exact ⟨b.absorb c, ⟨b, hb, c, hc, rfl⟩, rfl⟩

end Path

end QuadGraph
