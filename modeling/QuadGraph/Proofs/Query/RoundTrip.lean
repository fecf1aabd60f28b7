import QuadGraph.Proofs.Path.Combinations
import QuadGraph.Proofs.Query.Describing
import QuadGraph.Proofs.Query.Regrouping
import QuadGraph.Proofs.Query.Safety
import QuadGraph.Regex.Basic

/-! A graph told as documents. All properties of a node are saved in as many matches as there are
combinations of their values, and the documents put these together again: each tells the quads about
its subject, predicate by predicate, in the order in which they were added. -/
namespace QuadGraph

open Outcome

theorem filter_toList (tags : Tags) (name : String) :
    tags.toList.filter (·.1 = name) = tags[name]?.toList.map fun n => (name, n) := by
  cases hn : tags[name]? with
  | none =>
    rw [Option.toList_none, List.map_nil, List.filter_eq_nil_iff]
    intro tag htag hname
    rw [← of_decide_eq_true hname] at hn
    cases hn.symm.trans (Std.ExtTreeMap.mem_toList_iff_getElem?_eq_some.mp htag)
  | some n =>
    have hkeys : (tags.toList.map (·.1)).Nodup := by
      rw [List.Nodup, List.pairwise_map]
      exact Std.ExtTreeMap.distinct_keys_toList.imp fun hne heq =>
        hne (by rw [heq]; exact Std.ReflOrd.compare_self)
    exact filter_eq_singleton (·.1) _ (name, n)
      (Std.ExtTreeMap.mem_toList_iff_getElem?_eq_some.mpr hn) hkeys

namespace Graph

/-- What is read at a match of known nodes. -/
def recordAt (g : Graph) (b : Binding) : Record :=
  ⟨g.termAt b.node, b.tags.toList.map fun tag => (tag.1, g.termAt tag.2)⟩

theorem read_toStore (g : Graph) (n : NodeId) (h : g.Knows n) :
    g.toStore.read n = .ok (g.termAt n) := by
  rw [QuadStore.read, toStore]
  simp only [g.termOf?_termAt n h]

theorem told_toStore (g : Graph) (b : Binding) (h : b.Within g.Knows) :
    b.told [] g.toStore = .ok (g.recordAt b) := by
  rw [Binding.told_eq_ok]
  refine ⟨g.read_toStore b.node h.node, ?_⟩
  rw [QuadStore.readAll, mapM_eq_ok, recordAt, List.forall₂_map_right_iff]
  apply List.forall₂_same.mpr
  intro tag htag
  have hknown : g.Knows tag.2 :=
    h.tags tag.1 tag.2 (Std.ExtTreeMap.mem_toList_iff_getElem?_eq_some.mp htag)
  rw [g.read_toStore tag.2 hknown]
  rfl

theorem valuesOf_recordAt (g : Graph) (v : Vocabulary) (name : String) (bindings : List Binding) :
    Document.valuesOf name ((bindings.map g.recordAt).flatMap (Record.entries v)) =
      (Binding.under name bindings).map fun n => JsonLd.encode v (g.termAt n) := by
  rw [Document.valuesOf, Binding.under, List.flatMap_map, List.filter_flatMap, List.map_flatMap,
    List.map_flatMap]
  congr 1
  funext b
  have htags := filter_toList b.tags name
  have hentries : (Record.entries v (g.recordAt b)).filter (·.1 = name) =
      (b.tags.toList.filter (·.1 = name)).map
        fun tag => (tag.1, JsonLd.encode v (g.termAt tag.2)) := by
    simp only [Record.entries, recordAt, List.map_map, List.filter_map]
    rfl
  rw [hentries, htags, List.map_map, List.map_map]
  rfl

/-- The nodes that are saved for each property of a node, under its name. -/
def groups (g : Graph) (n : NodeId) : List (String × List NodeId) :=
  (Walking.predicates (g.quadsBy .subject n)).map fun m =>
    ((g.termAt m).tagName, ((g.quadsBy .subject n).filter (·.predicate = m)).map (·.object))

/-- The matches that come of one in saving all its properties. -/
def combinations (g : Graph) (b : Binding) : List Binding :=
  if (g.groups b.node).isEmpty then [] else Binding.spread (g.groups b.node) [b]

/-- What is read at the matches that come of one in saving all its properties. -/
def tellings (g : Graph) (b : Binding) : List Record :=
  (g.combinations b).map g.recordAt

theorem groups_eq_farEnds (g : Graph) (n : NodeId) :
    let predicates := Walking.predicates (g.quadsBy .subject n)
    g.groups n = Walking.farEnds .forward (g.quadsBy .subject n)
      (predicates.zip ((predicates.map g.termAt).map Term.tagName)) := by
  intro predicates
  rw [List.map_map, ← List.map_prod_left_eq_zip, Walking.farEnds, List.map_map]
  rfl

theorem saveAll_toStore (quads : List Quad) (b : Binding) :
    Walking.saveAll (ofQuads quads).toStore .forward b = .ok ((ofQuads quads).combinations b) := by
  let g := ofQuads quads
  have hempty : (g.groups b.node).isEmpty = (g.quadsBy .subject b.node).isEmpty := by
    rw [groups, List.isEmpty_map, Walking.isEmpty_predicates]
  have hterms := terms_predicates quads .subject b.node
  rw [combinations, hempty, groups_eq_farEnds, Walking.saveAll_eq]
  refine (bind_eq_ok _ _ _).mpr ⟨g.quadsBy .subject b.node, rfl, ?_⟩
  exact (bind_eq_ok _ _ _).mpr ⟨_, hterms, rfl⟩

variable (quads : List Quad) (v : Vocabulary)

theorem map_fst_groups (n : NodeId) (h : (ofQuads quads).Knows n) :
    ((ofQuads quads).groups n).map (·.1) =
      (predicatesOf quads ((ofQuads quads).termAt n)).map Term.tagName := by
  rw [groups, List.map_map, ← map_termAt_predicates quads n h, List.map_map]
  rfl

theorem groups_nonempty (g : Graph) (n : NodeId) : ∀ group ∈ g.groups n, group.2 ≠ [] := by
  rw [groups_eq_farEnds]
  exact Walking.farEnds_nonempty _ _ _ fun p hp => (List.of_mem_zip hp).1

/-- The nodes saved under the name of a predicate stand for its objects. -/
theorem exists_mem_groups (n : NodeId) (hn : (ofQuads quads).Knows n) (p : Term)
    (hp : p ∈ predicatesOf quads ((ofQuads quads).termAt n)) :
    ∃ nodes, (p.tagName, nodes) ∈ (ofQuads quads).groups n ∧
      (nodes.map fun m => JsonLd.encode v ((ofQuads quads).termAt m)).eraseDups =
        objectsOf quads v ((ofQuads quads).termAt n) p := by
  let g := ofQuads quads
  rw [← map_termAt_predicates quads n hn] at hp
  obtain ⟨m, hm, rfl⟩ := List.mem_map.mp hp
  let nodes := ((g.quadsBy .subject n).filter (·.predicate = m)).map (·.object)
  refine ⟨nodes, List.mem_map.mpr ⟨m, hm, rfl⟩, ?_⟩
  have hobjects := map_termAt_objects quads n m hn (knows_predicates quads n m hm)
  calc (nodes.map (JsonLd.encode v ∘ g.termAt)).eraseDups
      = ((nodes.map g.termAt).map (JsonLd.encode v)).eraseDups := by rw [← List.map_map]
    _ = ((quadsOf quads (g.termAt n) (g.termAt m)).eraseDups.map
          fun q => JsonLd.encode v q.object).eraseDups := by
        rw [show nodes.map g.termAt = _ from hobjects, List.map_map]
        rfl
    _ = objectsOf quads v (g.termAt n) (g.termAt m) := eraseDups_map_eraseDups _ _

theorem node_of_mem_combinations (g : Graph) (b c : Binding) (h : c ∈ g.combinations b) :
    c.node = b.node := by
  unfold combinations at h
  split at h
  · cases h
  · exact Binding.node_of_mem_spread [b] b.node (by simp) c h

theorem combinations_eq_spread (b : Binding) (h : (ofQuads quads).Knows b.node) (p : Term)
    (hp : p ∈ predicatesOf quads ((ofQuads quads).termAt b.node)) :
    (ofQuads quads).combinations b = Binding.spread ((ofQuads quads).groups b.node) [b] := by
  obtain ⟨nodes, hmem, -⟩ := exists_mem_groups quads .standard b.node h p hp
  rw [combinations, if_neg]
  rw [List.isEmpty_iff]
  exact List.ne_nil_of_mem hmem

/-- In all combinations, the values of a predicate come up first in the order of its quads. -/
theorem valuesOf_tellings (b : Binding) (h : (ofQuads quads).Knows b.node)
    (hn : Nameable quads ((ofQuads quads).termAt b.node)) (p : Term)
    (hp : p ∈ predicatesOf quads ((ofQuads quads).termAt b.node)) :
    (Document.valuesOf p.tagName
      (((ofQuads quads).tellings b).flatMap (Record.entries v))).eraseDups =
        objectsOf quads v ((ofQuads quads).termAt b.node) p := by
  obtain ⟨nodes, hmem, hobjects⟩ := exists_mem_groups quads v b.node h p hp
  have hnames : (((ofQuads quads).groups b.node).map (·.1)).Nodup := by
    rw [map_fst_groups quads b.node h]
    exact nodup_names quads _ hn
  have hunder := Binding.under_spread p.tagName nodes [b] hmem hnames (List.cons_ne_nil b [])
    ((ofQuads quads).groups_nonempty b.node)
  rw [tellings, valuesOf_recordAt, combinations_eq_spread quads b h p hp, ← eraseDups_map_eraseDups,
    hunder, eraseDups_map_eraseDups, hobjects]

theorem valuesOf_tellings_other (b : Binding) (h : (ofQuads quads).Knows b.node)
    (htags : b.tags = ∅) (name : String)
    (hname : name ∉ (predicatesOf quads ((ofQuads quads).termAt b.node)).map Term.tagName) :
    Document.valuesOf name (((ofQuads quads).tellings b).flatMap (Record.entries v)) = [] := by
  rw [tellings, valuesOf_recordAt, List.map_eq_nil_iff]
  unfold combinations
  split
  · rfl
  · rw [← map_fst_groups quads b.node h] at hname
    have hunder := Binding.under_spread_other name [b] hname
      ((ofQuads quads).groups_nonempty b.node)
    have hnone : Binding.under name [b] = [] := by simp [Binding.under, htags]
    rw [hnone] at hunder
    rw [List.eq_nil_iff_forall_not_mem]
    intro n hmem
    rw [← List.mem_eraseDups, hunder] at hmem
    cases hmem

theorem subject_of_mem_tellings (b : Binding) :
    ∀ r ∈ (ofQuads quads).tellings b, r.subject = (ofQuads quads).termAt b.node := by
  intro r hr
  obtain ⟨c, hc, rfl⟩ := List.mem_map.mp hr
  rw [recordAt, node_of_mem_combinations _ b c hc]

/-- Something is told of a match exactly if there are quads about it. -/
theorem eraseDups_subjects_tellings (b : Binding) (h : (ofQuads quads).Knows b.node) :
    (((ofQuads quads).tellings b).map (·.subject)).eraseDups =
      if quads.any (·.subject = (ofQuads quads).termAt b.node)
        then [(ofQuads quads).termAt b.node] else [] := by
  let t := (ofQuads quads).termAt b.node
  have hsame : ((ofQuads quads).tellings b).map (·.subject) =
      ((ofQuads quads).tellings b).flatMap fun _ => [t] := by
    rw [← List.map_eq_flatMap]
    exact List.map_congr_left (subject_of_mem_tellings quads b)
  rw [hsame]
  split
  · next hany =>
    obtain ⟨q, hq, hsubject⟩ := List.any_eq_true.mp hany
    have hp : q.predicate ∈ predicatesOf quads t :=
      (mem_predicatesOf quads t _).mpr ⟨q, hq, of_decide_eq_true hsubject, rfl⟩
    have hspread := Binding.spread_ne_nil [b] (List.cons_ne_nil b [])
      ((ofQuads quads).groups_nonempty b.node)
    apply eraseDups_flatMap_const
    rw [tellings, combinations_eq_spread quads b h q.predicate hp]
    exact mt List.map_eq_nil_iff.mp hspread
  · next hany =>
    have hnone : predicatesOf quads t = [] := by
      rw [List.eq_nil_iff_forall_not_mem]
      intro p hp
      obtain ⟨q, hq, hsubject, -⟩ := (mem_predicatesOf quads t p).mp hp
      exact hany (List.any_eq_true.mpr ⟨q, hq, decide_eq_true hsubject⟩)
    -- Without predicates there are no groups, and then nothing is combined.
    have hgroups : (ofQuads quads).groups b.node = [] := by
      rw [← List.map_eq_nil_iff (f := Prod.fst), map_fst_groups quads b.node h, hnone]
      rfl
    rw [tellings, combinations, hgroups]
    rfl

/-- What is told about a subject comes of the matches at this subject. -/
theorem about_tellings (found : List Binding) (t : Term) :
    Document.about v (found.flatMap (ofQuads quads).tellings) t =
      (found.filter ((ofQuads quads).termAt ·.node = t)).flatMap fun b =>
        ((ofQuads quads).tellings b).flatMap (Record.entries v) := by
  rw [Document.about, List.filter_flatMap, List.flatMap_assoc, ← flatMap_ite_eq_filter]
  congr 1
  funext b
  have hsubject := subject_of_mem_tellings quads b
  by_cases ht : (ofQuads quads).termAt b.node = t
  · rw [if_pos (decide_eq_true ht), List.filter_eq_self.mpr]
    intro r hr
    exact decide_eq_true ((hsubject r hr).trans ht)
  · rw [if_neg (by simpa using ht), List.filter_eq_nil_iff.mpr, List.flatMap_nil]
    intro r hr hr'
    exact ht ((hsubject r hr).symm.trans (of_decide_eq_true hr'))

/-- Coming to a subject again adds nothing: the values of every predicate are told once more. -/
theorem toJson_about_tellings (found : List Binding)
    (hknown : ∀ b ∈ found, (ofQuads quads).Knows b.node) (htags : ∀ b ∈ found, b.tags = ∅)
    (t : Term) (ht : t ∈ found.map ((ofQuads quads).termAt ·.node)) (hn : Nameable quads t) :
    (Document.telling t (Document.about v (found.flatMap (ofQuads quads).tellings) t)).toJson =
      describe quads v t := by
  have hmine (b : Binding) (hb : b ∈ found.filter ((ofQuads quads).termAt ·.node = t)) :
      b ∈ found ∧ (ofQuads quads).termAt b.node = t :=
    ⟨List.mem_of_mem_filter hb, of_decide_eq_true (List.mem_filter.mp hb).2⟩
  have hsome : found.filter ((ofQuads quads).termAt ·.node = t) ≠ [] := by
    obtain ⟨b, hb, hterm⟩ := List.mem_map.mp ht
    exact List.ne_nil_of_mem (List.mem_filter.mpr ⟨hb, decide_eq_true hterm⟩)
  rw [about_tellings]
  apply Document.toJson_telling_eq_describe quads v t _ hn
  · intro p hp
    rw [Document.valuesOf_flatMap]
    calc _ = ((found.filter ((ofQuads quads).termAt ·.node = t)).flatMap
            fun _ => objectsOf quads v t p).eraseDups := by
          apply eraseDups_flatMap_congr
          intro b hb
          obtain ⟨hmem, hterm⟩ := hmine b hb
          have hvalues := valuesOf_tellings quads v b (hknown b hmem) (hterm ▸ hn) p (hterm ▸ hp)
          rw [hvalues, hterm]
          exact (eraseDups_of_nodup _ (nodup_eraseDups _)).symm
      _ = (objectsOf quads v t p).eraseDups := eraseDups_flatMap_const _ _ hsome
      _ = objectsOf quads v t p := eraseDups_of_nodup _ (nodup_eraseDups _)
  · intro name hname
    rw [Document.valuesOf_flatMap, List.flatMap_eq_nil_iff]
    intro b hb
    obtain ⟨hmem, hterm⟩ := hmine b hb
    exact valuesOf_tellings_other quads v b (hknown b hmem) (htags b hmem) name (hterm ▸ hname)

/-- The documents of all that is told describe the terms of the matches that have quads. -/
theorem collected_tellings (found : List Binding)
    (hknown : ∀ b ∈ found, (ofQuads quads).Knows b.node) (htags : ∀ b ∈ found, b.tags = ∅)
    (hn : ∀ t ∈ found.map ((ofQuads quads).termAt ·.node), Nameable quads t) :
    (Document.collected v (found.flatMap (ofQuads quads).tellings)).map Document.toJson =
      ((found.map ((ofQuads quads).termAt ·.node)).eraseDups.filter
        fun t => quads.any (·.subject = t)).map (describe quads v) := by
  let terms := found.map ((ofQuads quads).termAt ·.node)
  have hsubjects : ((found.flatMap (ofQuads quads).tellings).map (·.subject)).eraseDups =
      terms.eraseDups.filter fun t => quads.any (·.subject = t) := by
    rw [List.map_flatMap, ← eraseDups_filter, List.filter_map, List.map_eq_flatMap,
      ← flatMap_ite_eq_filter]
    apply eraseDups_flatMap_congr
    intro b hb
    rw [eraseDups_subjects_tellings quads b (hknown b hb)]
    simp only [Function.comp_apply]
    split <;> rfl
  rw [Document.collected, hsubjects, List.map_map]
  apply List.map_congr_left
  intro t ht
  have hterm : t ∈ terms := List.mem_eraseDups.mp (List.mem_of_mem_filter ht)
  exact toJson_about_tellings quads v found hknown htags t hterm (hn t hterm)

end Graph

namespace Step

open QuadGraph.Graph

theorem ahead_saveAll (quads : List Quad) (v : Vocabulary) (path : Path) (found : List Binding)
    (hsound : path.Sound (ofQuads quads).Knows false)
    (hfound : (ofQuads quads).toStore.execute path = .ok found) :
    (RecordWalk.mk (.start (ofQuads quads).toStore v (.saveAll path .forward)) []).ahead =
      .ok (found.flatMap (ofQuads quads).tellings) := by
  let g := ofQuads quads
  let saved : Path := .saveAll path .forward
  have hsaved : g.toStore.execute saved = .ok (found.flatMap g.combinations) := by
    rw [QuadStore.execute, Path.evaluate, show path.evaluate g.toStore none = .ok found from hfound]
    exact flatMapM_of_forall _ _ found fun b _ => saveAll_toStore quads b
  have hwithin := within_of_execute quads saved _ (.saveAll hsound) hsaved
  refine (bind_eq_ok _ _ _).mpr ⟨found.flatMap g.combinations, ?_, ?_⟩
  · change (g.toStore.execute saved).mapError QueryError.store = _
    rw [hsaved]
    rfl
  · have htellings : found.flatMap g.tellings = (found.flatMap g.combinations).map g.recordAt :=
      List.map_flatMap.symm
    rw [htellings, mapM_eq_ok, List.forall₂_map_right_iff]
    apply List.forall₂_same.mpr
    exact fun b hb => g.told_toStore b (hwithin b hb)

theorem results_properties [RegexEngine] (store : QuadStore) (v : Vocabulary) (s : Step)
    (path : Path) (grouping : Grouping) (hpath : s.compile store v none = .ok path) :
    (shaped (some (.properties (some s) .forward [])) (.documents grouping)).results store v =
      .ok (.documents (.start ⟨.start store v (.saveAll path .forward), []⟩ grouping)) := by
  simp only [results, compileSource, compile, hpath]
  rfl

/-- Whatever a step finds in a graph in memory: where its matches carry no tags and the predicates
of their nodes can be told apart by names, all properties of the matches, put together by subject,
are a document for every node that has quads, which tells just these quads. -/
theorem execute_describes [RegexEngine] (quads : List Quad) (v : Vocabulary) (s : Step)
    (path : Path) (hpath : s.compile (ofQuads quads).toStore v none = .ok path) :
    let store := (ofQuads quads).toStore
    ∃ (found : List Binding) (terms : List Term), store.execute path = .ok found ∧
      found.mapM (fun b => store.term b.node) = .ok terms ∧
      ((∀ b ∈ found, b.tags = ∅) → (∀ t ∈ terms, Nameable quads t) →
        (shaped (some (.properties (some s) .forward [])) (.documents .bySubject)).execute store v
            .live =
          .ok ((terms.eraseDups.filter fun t => quads.any (·.subject = t)).map
            (describe quads v))) := by
  intro store
  let g := ofQuads quads
  obtain ⟨hsound, found, hfound⟩ := exists_execute quads v s path hpath
  have hwithin := within_of_execute quads path found hsound hfound
  have hknown (b : Binding) (hb : b ∈ found) : g.Knows b.node := (hwithin b hb).node
  have hterms : found.mapM (fun b => store.term b.node) = .ok (found.map (g.termAt ·.node)) := by
    rw [mapM_eq_ok, List.forall₂_map_right_iff]
    apply List.forall₂_same.mpr
    exact fun b hb => g.term_toStore b.node (hknown b hb)
  refine ⟨found, _, hfound, hterms, ?_⟩
  intro htags hn
  let saved : Path := .saveAll path .forward
  have hahead := ahead_saveAll quads v path found hsound hfound
  obtain ⟨-, hdocuments, -⟩ := DocumentWalk.gather_of_ahead _ _ hahead
  rw [execute, results_properties store v s path .bySubject hpath]
  change ((Results.documents (.start ⟨.start store v saved, []⟩ .bySubject)).collect .live).1 = _
  rw [DocumentWalk.collect_of_ahead _ _ hahead, hdocuments]
  exact congrArg Except.ok (collected_tellings quads v found hknown htags hn)

/-- Somebody with friends, asked for twice: there is one document, in which every friend is named
once for every way of being one, and none for those of whom nothing is said. -/
theorem execute_describes_friends :
    let quads : List Quad := [.ofIris "alice" "likes" "bob" "", .ofIris "alice" "knows" "bob" "",
      .ofIris "alice" "likes" "carol" ""]
    let people : Step := .vertex [.iri "bob", .iri "alice", .iri "alice"]
    (shaped (some (.properties (some people) .forward [])) (.documents .bySubject)).execute
      (Graph.ofQuads quads).toStore .standard .live =
        .ok [.object [("@id", .string "alice"),
          ("knows", .array [.object [("@id", .string "bob")]]),
          ("likes", .array [.object [("@id", .string "bob")],
            .object [("@id", .string "carol")]])]] := by
  intro quads people
  let store := (Graph.ofQuads quads).toStore
  let nodes : List NodeId := [⟨2⟩, ⟨0⟩, ⟨0⟩]
  have hpath : people.compile store .standard none = .ok (.fixed nodes) := by
    with_unfolding_all rfl
  obtain ⟨found, terms, hfound, hterms, hdescribes⟩ :=
    execute_describes quads .standard people (.fixed nodes) hpath
  have hmatches : store.execute (.fixed nodes) = .ok (nodes.map .start) := by
    with_unfolding_all rfl
  obtain rfl := Except.ok.inj (hfound.symm.trans hmatches)
  have hread : (nodes.map Binding.start).mapM (fun b => store.term b.node) =
      .ok [.iri "bob", .iri "alice", .iri "alice"] := by
    with_unfolding_all rfl
  obtain rfl := Except.ok.inj (hterms.symm.trans hread)
  have htags : ∀ b ∈ nodes.map Binding.start, b.tags = ∅ := by simp [Binding.start]
  have hdistinct : ∀ q ∈ quads, ∀ q' ∈ quads, q.predicate.tagName = q'.predicate.tagName →
      q.predicate = q'.predicate := by decide
  have hapart : ∀ q ∈ quads, q.predicate.tagName ≠ "@id" := by decide
  have hsome : ([.iri "bob", .iri "alice", .iri "alice"] : List Term).eraseDups.filter
      (fun t => quads.any (·.subject = t)) = [.iri "alice"] := by decide
  have hpredicates : predicatesOf quads (.iri "alice") = [.iri "likes", .iri "knows"] := by decide
  have hlikes : objectsOf quads .standard (.iri "alice") (.iri "likes") =
      [.reference "bob", .reference "carol"] := by decide
  have hknows : objectsOf quads .standard (.iri "alice") (.iri "knows") =
      [.reference "bob"] := by decide
  rw [hdescribes htags, hsome, List.map_singleton, describe, hpredicates, List.map_cons,
    List.map_singleton, hlikes, hknows]
  · with_unfolding_all rfl
  · intro t _
    exact ⟨fun q hq q' hq' _ _ => hdistinct q hq q' hq', fun q hq _ => hapart q hq⟩

end Step

end QuadGraph
