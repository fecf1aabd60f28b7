import QuadGraph.Proofs.Pattern.Matching
import QuadGraph.Regex.Basic

/-! Patterns that refer to a thing, against the steps that ask for the thing directly. A reference
under a property is expanded when the pattern is read, and once more when the clause for it is made,
so it means the same as the step only if the name is through after one expansion. A reference to the
node itself is expanded once, like that of the step. -/
namespace QuadGraph

open Outcome Walking Compilation

theorem Term.ofIdentifier_eq_iri (id : String) (h : ¬ ['_', ':'] <+: id.toList) :
    ofIdentifier id = .iri id := by
  apply ofIdentifier_iri
  rintro label rfl
  apply h
  rw [String.toList_append]
  exact ⟨label.toList, rfl⟩

namespace Path

/-- A path that keeps some of the matches of another one, as they are and in their order. -/
def Selects (store : QuadStore) (p source : Path) (keep : Binding → Bool) : Prop :=
  ∀ seed, p.evaluate store seed = List.filter keep <$> source.evaluate store seed

/-- Walked from a match, a path that selects comes to that match or to nothing. -/
theorem evaluate_of_selects {store : QuadStore} {p : Path} {keep : Binding → Bool}
    (h : p.Selects store .here keep) (b : Binding) :
    p.evaluate store (some b) = .ok (if keep b then [b] else []) := by
  rw [h (some b), evaluate]
  cases hk : keep b <;> simp [hk, Functor.map, Except.map, pure, Except.pure]

/-- A single clause that selects selects as much where it stands by itself. -/
theorem selects_whereAll {store : QuadStore} {clause : Path} {keep : Binding → Bool}
    (source : Path) (h : clause.Selects store .here keep) :
    (whereAll source [clause]).Selects store source keep := by
  intro seed
  -- The match that the clause comes back to has no other tags than the match it is joined to.
  have hjoin (b : Binding) : join store [clause] [b] = .ok (if keep b then [b] else []) := by
    have hcopy : (if keep b then [b] else []).map b.extend = if keep b then [b] else [] := by
      cases keep b
      · rfl
      · simp [extend_of_tags b b rfl]
    rw [join, List.flatMapM_cons, evaluate_of_selects h b]
    simp [join, bind, Except.bind, pure, Except.pure, hcopy]
  rw [evaluate]
  cases source.evaluate store seed with
  | error e => rfl
  | ok found =>
    have hall := flatMapM_of_forall (fun b => join store [clause] [b]) _ found fun b _ => hjoin b
    rw [flatMap_ite] at hall
    exact hall

theorem selects_isOneOf (store : QuadStore) (source : Path) (nodes : List NodeId) :
    (isOneOf source nodes).Selects store source fun b => nodes.contains b.node := by
  intro seed
  rw [evaluate]
  cases source.evaluate store seed <;> rfl

/-- In a graph, asking for properties selects: the quads are there to be read. -/
theorem selects_has (g : Graph) (source : Path) (way : Way) (nodes : List NodeId)
    (targets : Option (List NodeId)) :
    (has source way (.fixed nodes) targets).Selects g.toStore source fun b =>
      ((g.quadsBy way.near b.node).filter fun q => admits (some nodes) q.predicate).any
        fun q => admits targets (way.far q) := by
  intro seed
  rw [evaluate, admitted_fixed]
  cases source.evaluate g.toStore seed with
  | error e => rfl
  | ok found =>
    refine Eq.trans ?_ (congrArg Except.ok (flatMap_ite _ found))
    exact flatMapM_pure _ found

/-- Where two selections from all nodes have the same matches, they keep the same nodes. -/
theorem keep_eq_of_selects {g : Graph} (hc : g.table.Consistent) {p q : Path}
    {keep keep' : Binding → Bool}
    (hp : p.Selects g.toStore .all keep) (hq : q.Selects g.toStore .all keep')
    (h : p.evaluate g.toStore none = q.evaluate g.toStore none) (n : NodeId) (t : Term)
    (hn : g.table.termOf? n = some t) : keep (.start n) = keep' (.start n) := by
  have hfilter : (g.table.nodes.map Binding.start).filter keep =
      (g.table.nodes.map Binding.start).filter keep' :=
    Except.ok.inj ((hp none).symm.trans (h.trans (hq none)))
  have hmem : Binding.start n ∈ g.table.nodes.map Binding.start :=
    List.mem_map.mpr ⟨n, (hc.mem_nodes n).mpr ⟨t, hn⟩, rfl⟩
  have hiff := congrArg (Binding.start n ∈ ·) hfilter
  simpa only [List.mem_filter, hmem, true_and, Bool.coe_iff_coe, eq_iff_iff] using hiff

/-- Asking for a value of a property selects the nodes that have it. -/
theorem exists_selects_hasValue {g : Graph} {quads : List Quad} (hi : g.Indexed)
    (hg : g.Holds quads) (v : Vocabulary) (name : String) (value : Term) :
    ∃ keep : Binding → Bool,
      (∀ source, (has source .forward (.fixed (nodesOf g v [.iri name]))
        (some (nodesOf g v [value]))).Selects g.toStore source keep) ∧
      ∀ b, keep b ↔ HasValue quads v (g.table.termOf? b.node) name (v.expand value) := by
  refine ⟨_, fun source => selects_has g source .forward _ _, fun b => ?_⟩
  -- As a clause, asking for the value comes to something exactly if the node has it.
  obtain ⟨found, hfound, -, hpos, -⟩ := repeats_has (v := v) hi hg name value b
  have hselected := evaluate_of_selects (selects_has g .here .forward (nodesOf g v [.iri name])
    (some (nodesOf g v [value]))) b
  cases hfound.symm.trans hselected
  rw [← hpos]
  split <;> simp_all

end Path

/-- The pattern of a thing under a property is one condition, on the expanded name of the thing. -/
theorem GraphPattern.ofMembers_reference (v : Vocabulary) (property id : String)
    (hp : property.toList.head? ≠ some '@') (hid : ¬ ['_', ':'] <+: id.toList) :
    ofMembers v [(property, .object [("@id", .string id)])] =
      .has property (v.expand (.iri id)) .nothing := by
  have hkey (key : String) (h : key.toList.head? = some '@') : property ≠ key := by
    rintro rfl
    exact hp h
  simp [ofMembers, ofProperty, isValue, hasValue, JsonLd.decode, Json.member?,
    Term.ofIdentifier_eq_iri id hid, hkey "@id" rfl, hkey "@type" rfl, hp]

namespace Step

variable {g : Graph} {v : Vocabulary} {ambient : Option Path} {source : Option Step} {start : Path}

theorem compile_matching_reference [RegexEngine] (property id : String)
    (hp : property.toList.head? ≠ some '@') (hid : ¬ ['_', ':'] <+: id.toList)
    (hstart : compileSource g.toStore source v ambient = .ok start) :
    (matching source [(property, .object [("@id", .string id)])]).compile g.toStore v ambient =
      .ok (.whereAll start [.has .here .forward (.fixed (nodesOf g v [.iri property]))
        (some (nodesOf g v [v.expand (.iri id)]))]) := by
  rw [compile, hstart, GraphPattern.ofMembers_reference v property id hp hid]
  simp [GraphPattern.compile, GraphPattern.fault?, GraphPattern.clauses, property_toStore,
    resolve_toStore, bind, Except.bind, pure, Except.pure]

theorem compile_has_property [RegexEngine] (property : String) (value : Term)
    (hstart : compileSource g.toStore source v ambient = .ok start) :
    (has source .forward [.property property] [value]).compile g.toStore v ambient =
      .ok (.has start .forward (.fixed (nodesOf g v [.iri property]))
        (some (nodesOf g v [value]))) := by
  simp [compile, hstart, compileAll, Step.property, alternatives, targets, resolve_toStore, bind,
    Except.bind, pure, Except.pure, Functor.map, Except.map]

theorem compile_matching_id [RegexEngine] (id : String) (hid : ¬ ['_', ':'] <+: id.toList)
    (hstart : compileSource g.toStore source v ambient = .ok start) :
    (matching source [("@id", .string id)]).compile g.toStore v ambient =
      .ok (.whereAll start [.isOneOf .here (nodesOf g v [.iri id])]) := by
  simp [compile, hstart, GraphPattern.ofMembers, GraphPattern.references,
    Term.ofIdentifier_eq_iri id hid, GraphPattern.compile, GraphPattern.fault?,
    GraphPattern.clauses, resolve_toStore, bind, Except.bind, pure, Except.pure]

theorem compile_isOneOf [RegexEngine] (values : List Term)
    (hstart : compileSource g.toStore source v ambient = .ok start) :
    (isOneOf source values).compile g.toStore v ambient =
      .ok (.isOneOf start (nodesOf g v values)) := by
  simp [compile, hstart, resolve_toStore, bind, Except.bind, pure, Except.pure]

/-- Two steps that have paths with the same matches, in the same order. The matches can be found
wherever those of the path can that both steps go on from. -/
def AgreeAfter [RegexEngine] (store : QuadStore) (v : Vocabulary) (ambient : Option Path)
    (start : Path) (s t : Step) : Prop :=
  ∃ p q, s.compile store v ambient = .ok p ∧ t.compile store v ambient = .ok q ∧
    ∀ seed, p.evaluate store seed = q.evaluate store seed ∧
      ∀ bs, start.evaluate store seed = .ok bs → ∃ out, p.evaluate store seed = .ok out

theorem agreeAfter_of_selects [RegexEngine] (store : QuadStore) (s t : Step) (p q : Path)
    (keep : Binding → Bool) (hs : s.compile store v ambient = .ok p)
    (ht : t.compile store v ambient = .ok q) (hp : p.Selects store start keep)
    (hq : q.Selects store start keep) : AgreeAfter store v ambient start s t := by
  refine ⟨p, q, hs, ht, fun seed => ⟨(hp seed).trans (hq seed).symm, fun bs hbs => ?_⟩⟩
  exact ⟨bs.filter keep, by rw [hp seed, hbs]; rfl⟩

theorem agreeAfter_reference [RegexEngine] (quads : List Quad) (property id : String)
    (hp : property.toList.head? ≠ some '@') (hid : ¬ ['_', ':'] <+: id.toList)
    (hv : v.fullIri (v.fullIri id) = v.fullIri id)
    (hstart : compileSource (Graph.ofQuads quads).toStore source v ambient = .ok start) :
    AgreeAfter (Graph.ofQuads quads).toStore v ambient start
      (matching source [(property, .object [("@id", .string id)])])
      (has source .forward [.property property] [.iri id]) := by
  -- Both expansions name one node, so the two conditions are the same one.
  have hnodes : nodesOf (Graph.ofQuads quads) v [v.expand (.iri id)] =
      nodesOf (Graph.ofQuads quads) v [.iri id] := by
    simp only [nodesOf, List.map_cons, List.map_nil, Vocabulary.expand, hv]
  have hpattern := compile_matching_reference property id hp hid hstart
  rw [hnodes] at hpattern
  exact agreeAfter_of_selects _ _ _ _ _ _ hpattern (compile_has_property property _ hstart)
    (Path.selects_whereAll start (Path.selects_has _ .here .forward _ _))
    (Path.selects_has _ start .forward _ _)

theorem links_singleton (s p o t : Term) :
    Links [⟨s, p, o, none⟩] .forward s p t ↔ o = t := by
  simp [Links]

/-- A thing that refers to itself by a property is found by the step that asks for it, but not by
the pattern if the name of the thing goes on to be expanded. -/
theorem fullIri_of_agreeAfter [RegexEngine] (property id : String)
    (hp : property.toList.head? ≠ some '@') (hid : ¬ ['_', ':'] <+: id.toList)
    (h : ∀ quads, AgreeAfter (Graph.ofQuads quads).toStore v none .all
      (matching none [(property, .object [("@id", .string id)])])
      (has none .forward [.property property] [.iri id])) :
    v.fullIri (v.fullIri id) = v.fullIri id := by
  let thing : Term := .iri (v.fullIri id)
  let quads : List Quad := [⟨thing, .iri (v.fullIri property), thing, none⟩]
  obtain ⟨hi, hg⟩ := Graph.holds_ofQuads quads
  have hlink : Links quads .forward thing (.iri (v.fullIri property)) thing :=
    (links_singleton _ _ _ _).mpr rfl
  obtain ⟨n, hn⟩ := (Graph.ofQuads quads).exists_node hg thing
    (occurs_of_links quads .forward thing _ thing hlink).1
  -- What the two steps keep of all nodes is told by the term that each of them asks for.
  obtain ⟨p, q, hcp, hcq, hpq⟩ := h quads
  have hsource : compileSource (Graph.ofQuads quads).toStore none v none = .ok .all := rfl
  cases hcp.symm.trans (compile_matching_reference property id hp hid hsource)
  cases hcq.symm.trans (compile_has_property property (.iri id) hsource)
  obtain ⟨keepTwice, hselects, htwice⟩ :=
    Path.exists_selects_hasValue hi hg v property (v.expand (.iri id))
  obtain ⟨keepOnce, hselects', honce⟩ :=
    Path.exists_selects_hasValue hi hg v property (.iri id)
  have hsame : keepTwice (.start n) = keepOnce (.start n) :=
    Path.keep_eq_of_selects hg.consistent (Path.selects_whereAll .all (hselects .here))
      (hselects' .all) (hpq none).1 n thing hn
  have hkept : keepTwice (.start n) := by
    rw [hsame]
    exact (honce _).mpr ⟨thing, hn, hlink⟩
  obtain ⟨s, hs, hlink'⟩ := (htwice _).mp hkept
  cases hn.symm.trans hs
  exact (Term.iri.inj ((links_singleton _ _ _ _).mp hlink')).symm

/-- A pattern that refers to a thing under a property agrees with the step that asks for the thing,
over every graph and after every source, exactly if the name of the thing is through after one
expansion. A pattern that refers to the node itself agrees with its step in any case. -/
theorem agreeAfter_matching_iff [RegexEngine] (v : Vocabulary) (property id : String)
    (hp : property.toList.head? ≠ some '@') (hid : ¬ ['_', ':'] <+: id.toList) :
    ((∀ quads ambient source start,
      compileSource (Graph.ofQuads quads).toStore source v ambient = .ok start →
      AgreeAfter (Graph.ofQuads quads).toStore v ambient start
        (matching source [(property, .object [("@id", .string id)])])
        (has source .forward [.property property] [.iri id])) ↔
      v.fullIri (v.fullIri id) = v.fullIri id) ∧
    ∀ quads ambient source start,
      compileSource (Graph.ofQuads quads).toStore source v ambient = .ok start →
      AgreeAfter (Graph.ofQuads quads).toStore v ambient start
        (matching source [("@id", .string id)]) (isOneOf source [.iri id]) := by
  refine ⟨⟨fun h => ?_, fun hv => ?_⟩, ?_⟩
  · exact fullIri_of_agreeAfter property id hp hid fun quads => h quads none none .all rfl
  · intro quads ambient source start hstart
    exact agreeAfter_reference quads property id hp hid hv hstart
  · intro quads ambient source start hstart
    exact agreeAfter_of_selects _ _ _ _ _ _ (compile_matching_id id hid hstart)
      (compile_isOneOf [.iri id] hstart) (Path.selects_whereAll start (Path.selects_isOneOf _ _ _))
      (Path.selects_isOneOf _ start _)

/-- Under the standard vocabulary every name is through after one expansion, so whoever knows a
person is found either way. -/
theorem agreeAfter_matching_acquaintance :
    let store := (Graph.ofQuads [.ofIris "alice" "http://schema.org/knows"
      "http://schema.org/bob" ""]).toStore
    "schema:knows".toList.head? ≠ some '@' ∧ ¬ ['_', ':'] <+: "schema:bob".toList ∧
      AgreeAfter store .standard none .all
        (matching none [("schema:knows", .object [("@id", .string "schema:bob")])])
        (has none .forward [.property "schema:knows"] [.iri "schema:bob"]) ∧
      AgreeAfter store .standard none .all (matching none [("@id", .string "schema:bob")])
        (isOneOf none [.iri "schema:bob"]) := by
  intro store
  have hp : "schema:knows".toList.head? ≠ some '@' := by decide
  have hid : ¬ ['_', ':'] <+: "schema:bob".toList := by decide
  have hv := Vocabulary.idempotent_standard "schema:bob"
  obtain ⟨hreference, hthing⟩ :=
    agreeAfter_matching_iff .standard "schema:knows" "schema:bob" hp hid
  exact ⟨hp, hid, hreference.mpr hv _ none none .all rfl, hthing _ none none .all rfl⟩

/-- A start whose expansion begins with another start: the pattern goes one expansion too far and
finds nobody, where the step finds who likes the thing. -/
theorem matching_misses_chained_start :
    let v := (Vocabulary.empty.addPrefix "ex:" "urn:ex:").addPrefix "urn:" "http://urn.example/"
    let store := (Graph.ofQuads [.ofIris "alice" "likes" "urn:ex:bob" ""]).toStore
    let found (s : Step) := (s.compile store v none).toOption.bind fun path =>
      (path.evaluate store none).toOption
    found (matching none [("likes", .object [("@id", .string "ex:bob")])]) = some [] ∧
      found (has none .forward [.property "likes"] [.iri "ex:bob"]) = some [.start ⟨0⟩] := by
  decide +kernel

end Step

end QuadGraph
