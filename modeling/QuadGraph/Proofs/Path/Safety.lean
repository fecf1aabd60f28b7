import QuadGraph.Proofs.Path.Combinations

/-! When walking a path fails. A path is sound if it begins by itself or is given a match to begin
from, and if it names only known nodes. A sound path comes to known nodes only, and it fails only
where the store does. -/
namespace QuadGraph

open Outcome

/-- A store that fails only as `E` allows, that tells only of nodes that are known, and that reads
the terms of all of these. -/
structure QuadStore.Answers (store : QuadStore) (known : NodeId → Prop) (E : StoreError → Prop) :
    Prop where
  nodes : Meets E (fun found => ∀ n ∈ found, known n) store.nodes
  quadsBy (position : Position) (n : NodeId) : known n →
    Meets E (fun found => ∀ q ∈ found, known q.subject ∧ known q.predicate ∧ known q.object)
      (store.quadsBy position n)
  termOf (n : NodeId) : known n → Meets E (fun _ => True) (store.termOf n)
  term (n : NodeId) : known n → Meets E (fun _ => True) (store.term n)

/-- A match all of whose nodes are known: where it stands, where it began, and what it named. -/
structure Binding.Within (known : NodeId → Prop) (b : Binding) : Prop where
  node : known b.node
  origin : known b.origin
  tags (name : String) (n : NodeId) : b.tags[name]? = some n → known n

/-- A path that names known nodes only, and that needs a match to begin from only where there is
one: anywhere if it is `seeded`, and in any case in extensions and clauses. -/
inductive Path.Sound (known : NodeId → Prop) : Bool → Path → Prop
  | all {seeded} : Sound known seeded .all
  | fixed {seeded nodes} (h : ∀ n ∈ nodes, known n) : Sound known seeded (.fixed nodes)
  | here : Sound known true .here
  | follow {seeded source route via} (hs : Sound known seeded source)
    (hv : Sound known false via) : Sound known seeded (.follow source route via)
  | predicates {seeded source way} (hs : Sound known seeded source) :
    Sound known seeded (.predicates source way)
  | savePredicates {seeded source way name} (hs : Sound known seeded source) :
    Sound known seeded (.savePredicates source way name)
  | save {seeded source way via name} (hs : Sound known seeded source)
    (hv : Sound known false via) : Sound known seeded (.save source way via name)
  | saveAll {seeded source way} (hs : Sound known seeded source) :
    Sound known seeded (.saveAll source way)
  | has {seeded source way via targets} (hs : Sound known seeded source)
    (hv : Sound known false via) : Sound known seeded (.has source way via targets)
  | isOneOf {seeded source nodes} (hs : Sound known seeded source) :
    Sound known seeded (.isOneOf source nodes)
  | tag {seeded source name} (hs : Sound known seeded source) :
    Sound known seeded (.tag source name)
  | back {seeded source name} (hs : Sound known seeded source) :
    Sound known seeded (.back source name)
  | union {seeded left right} (hl : Sound known seeded left) (hr : Sound known seeded right) :
    Sound known seeded (.union left right)
  | intersect {seeded left right} (hl : Sound known seeded left)
    (hr : Sound known seeded right) : Sound known seeded (.intersect left right)
  | except {seeded left right} (hl : Sound known seeded left) (hr : Sound known seeded right) :
    Sound known seeded (.except left right)
  | limit {seeded source count} (hs : Sound known seeded source) :
    Sound known seeded (.limit source count)
  | skip {seeded source count} (hs : Sound known seeded source) :
    Sound known seeded (.skip source count)
  | unique {seeded source} (hs : Sound known seeded source) : Sound known seeded (.unique source)
  | order {seeded source} (hs : Sound known seeded source) : Sound known seeded (.order source)
  | optional {seeded source extension} (hs : Sound known seeded source)
    (he : Sound known true extension) : Sound known seeded (.optional source extension)
  | whereAll {seeded source clauses} (hs : Sound known seeded source)
    (hc : ∀ clause ∈ clauses, Sound known true clause) :
    Sound known seeded (.whereAll source clauses)
  | filter {seeded source condition} (hs : Sound known seeded source) :
    Sound known seeded (.filter source condition)

namespace Binding

variable {known : NodeId → Prop}

theorem within_start (n : NodeId) (h : known n) : (start n).Within known :=
  ⟨h, h, by simp [start]⟩

theorem within_moved (b : Binding) (n : NodeId) (hb : b.Within known) (h : known n) :
    (b.moved n).Within known :=
  ⟨h, hb.origin, hb.tags⟩

theorem within_tagged (b : Binding) (name : String) (n : NodeId) (hb : b.Within known)
    (h : known n) : (b.tagged name n).Within known := by
  refine ⟨hb.node, hb.origin, ?_⟩
  intro other m hm
  simp only [tagged, Std.ExtTreeMap.getElem?_insert] at hm
  split at hm
  · cases hm
    exact h
  · exact hb.tags other m hm

theorem within_map_moved (b : Binding) (nodes : List NodeId) (hb : b.Within known)
    (h : ∀ n ∈ nodes, known n) : ∀ c ∈ nodes.map b.moved, c.Within known := by
  intro c hc
  obtain ⟨n, hn, rfl⟩ := List.mem_map.mp hc
  exact within_moved b n hb (h n hn)

theorem within_map_tagged (b : Binding) (name : String) (nodes : List NodeId)
    (hb : b.Within known) (h : ∀ n ∈ nodes, known n) :
    ∀ c ∈ nodes.map (b.tagged name), c.Within known := by
  intro c hc
  obtain ⟨n, hn, rfl⟩ := List.mem_map.mp hc
  exact within_tagged b name n hb (h n hn)

/-- The tags of two matches put together, whichever of them wins. -/
theorem within_union (b c d : Binding) (hb : b.Within known) (hc : c.Within known)
    (hd : d.Within known) : ({ b with tags := c.tags ∪ d.tags } : Binding).Within known := by
  refine ⟨hb.node, hb.origin, ?_⟩
  intro name m hm
  simp only [Std.ExtTreeMap.getElem?_union, Option.or_eq_some_iff] at hm
  rcases hm with hm | ⟨-, hm⟩
  · exact hd.tags name m hm
  · exact hc.tags name m hm

theorem within_absorb (b other : Binding) (hb : b.Within known) (h : other.Within known) :
    (b.absorb other).Within known :=
  within_union b other b hb h hb

theorem within_extend (b other : Binding) (hb : b.Within known) (h : other.Within known) :
    (b.extend other).Within known :=
  within_union b b other hb hb h

end Binding

namespace Walking

variable {store : QuadStore} {known : NodeId → Prop} {E : StoreError → Prop}

theorem meets_admitted (via : Path) (found : Except StoreError (List Binding))
    (h : Meets E (fun bs => ∀ b ∈ bs, b.Within known) found) :
    Meets E (fun _ => True) (admitted via found) := by
  unfold admitted
  split
  · exact trivial
  · exact meets_bind _ _ _ h fun _ _ => trivial

theorem meets_quads (hs : store.Answers known E) (way : Way) (nodes : Option (List NodeId))
    (n : NodeId) (h : known n) :
    Meets E (fun found => ∀ q ∈ found, known (way.far q)) (quads store way nodes n) := by
  refine meets_bind _ _ _ (hs.quadsBy way.near n h) fun found hfound => ?_
  rw [meets_pure]
  intro q hq
  obtain ⟨hsubject, -, hobject⟩ := hfound q (List.mem_of_mem_filter hq)
  cases way with
  | forward => exact hobject
  | backward => exact hsubject

theorem known_predicates (found : List IndexedQuad) (h : ∀ q ∈ found, known q.predicate) :
    ∀ n ∈ predicates found, known n := by
  intro n hn
  obtain ⟨q, hq, rfl⟩ := (mem_predicates found n).mp hn
  exact h q hq

theorem meets_hops (hs : store.Answers known E) (route : Route) (nodes : Option (List NodeId))
    (n : NodeId) (h : known n) :
    Meets E (fun found => ∀ m ∈ found, known m) (hops store route nodes n) := by
  cases route with
  | one way =>
    refine meets_bind _ _ _ (meets_quads hs way nodes n h) fun found hfound => ?_
    rw [meets_pure]
    intro m hm
    obtain ⟨q, hq, rfl⟩ := List.mem_map.mp hm
    exact hfound q hq
  | both =>
    refine meets_bind _ _ _ (meets_quads hs .forward nodes n h) fun out hout => ?_
    refine meets_bind _ _ _ (meets_quads hs .backward nodes n h) fun back hback => ?_
    rw [meets_pure]
    intro m hm
    obtain ⟨hop, hhop, rfl⟩ := List.mem_map.mp hm
    rw [List.mem_mergeSort, List.mem_append] at hhop
    rcases hhop with hhop | hhop
    · obtain ⟨q, hq, rfl⟩ := List.mem_map.mp hhop
      exact hout q hq
    · obtain ⟨q, hq, rfl⟩ := List.mem_map.mp hhop
      exact hback q hq

/-- Naming known nodes in all combinations leads from matches within to matches within. -/
theorem within_spread (groups : List (String × List NodeId)) (partials : List Binding)
    (hg : ∀ group ∈ groups, ∀ n ∈ group.2, known n) (hp : ∀ b ∈ partials, b.Within known) :
    ∀ b ∈ Binding.spread groups partials, b.Within known := by
  induction groups generalizing partials with
  | nil => exact hp
  | cons group rest ih =>
    refine ih _ (fun g hmem => hg g (List.mem_cons_of_mem group hmem)) ?_
    intro b hb
    obtain ⟨b', hb', hb⟩ := List.mem_flatMap.mp hb
    exact Binding.within_map_tagged b' group.1 group.2 (hp b' hb')
      (hg group List.mem_cons_self) b hb

theorem meets_saveAll (hs : store.Answers known E) (way : Way) (b : Binding)
    (hb : b.Within known) :
    Meets E (fun found => ∀ b ∈ found, b.Within known) (saveAll store way b) := by
  rw [saveAll_eq]
  refine meets_bind _ _ _ (hs.quadsBy way.near b.node hb.node) fun found hfound => ?_
  have hpredicates : ∀ n ∈ predicates found, known n :=
    known_predicates found fun q hq => (hfound q hq).2.1
  have hfar : ∀ q ∈ found, known (way.far q) := by
    intro q hq
    cases way with
    | forward => exact (hfound q hq).2.2
    | backward => exact (hfound q hq).1
  have hterms := meets_mapM store.term _ (predicates found) fun n hn => hs.term n (hpredicates n hn)
  refine meets_bind _ _ _ hterms fun terms _ => ?_
  rw [meets_pure]
  split
  · exact nofun
  · refine within_spread _ [b] ?_ (List.forall_mem_singleton.mpr hb)
    intro group hgroup n hn
    obtain ⟨p, -, rfl⟩ := List.mem_map.mp hgroup
    obtain ⟨q, hq, rfl⟩ := List.mem_map.mp hn
    exact hfar q (List.mem_of_mem_filter hq)

theorem meets_sorted (hs : store.Answers known E) (found : List Binding)
    (h : ∀ b ∈ found, b.Within known) :
    Meets E (fun out => ∀ b ∈ out, b.Within known) (sorted store found) := by
  refine meets_bind _ _ _ (meets_mapM _ (fun keyed => keyed.2.Within known) _ ?_)
    fun keyed hkeyed => ?_
  · intro b hb
    exact meets_bind _ _ _ (hs.term b.node (h b hb).node) fun _ _ => h b hb
  · rw [meets_pure]
    intro b hb
    obtain ⟨pair, hpair, rfl⟩ := List.mem_map.mp hb
    exact hkeyed pair (List.mem_mergeSort.mp hpair)

end Walking

namespace Path

open Walking

variable {store : QuadStore} {known : NodeId → Prop} {E : StoreError → Prop}

/-- Clauses, each of which leads from matches within to matches within, do so one after another. -/
theorem join_meets (clauses : List Path) (found : List Binding)
    (hc : ∀ clause ∈ clauses, ∀ b : Binding, b.Within known →
      Meets E (fun found => ∀ b ∈ found, b.Within known) (clause.evaluate store (some b)))
    (hf : ∀ b ∈ found, b.Within known) :
    Meets E (fun found => ∀ b ∈ found, b.Within known) (join store clauses found) := by
  induction clauses generalizing found with
  | nil => exact hf
  | cons clause rest ih =>
    rw [join]
    refine meets_bind _ _ _ (meets_flatMapM _ _ _ fun b hb => ?_) fun next hnext =>
      ih next (fun c hmem => hc c (List.mem_cons_of_mem clause hmem)) hnext
    refine meets_bind _ _ _ (hc clause List.mem_cons_self b (hf b hb)) fun out hout => ?_
    rw [meets_pure]
    intro b' hb'
    obtain ⟨r, hr, rfl⟩ := List.mem_map.mp hb'
    exact Binding.within_extend b r (hf b hb) (hout r hr)

/-- A sound path fails only where the store does, and comes to known nodes only. -/
theorem evaluate_meets (hs : store.Answers known E) (p : Path) (seeded : Bool)
    (hp : p.Sound known seeded) (seed : Option Binding) (hseed : seeded → seed.isSome)
    (hb : ∀ b ∈ seed, b.Within known) :
    Meets E (fun found => ∀ b ∈ found, b.Within known) (p.evaluate store seed) := by
  -- The paths to predicates are given no match; they are sound without one.
  have hunseeded : false = true → (none : Option Binding).isSome :=
    fun h => absurd h Bool.false_ne_true
  have hnone : ∀ b ∈ (none : Option Binding), b.Within known :=
    fun b hmem => absurd hmem (Option.not_mem_none b)
  induction hp generalizing seed with
  | all =>
    refine meets_bind _ _ _ hs.nodes fun nodes hnodes => ?_
    rw [meets_pure]
    intro b hmem
    obtain ⟨n, hn, rfl⟩ := List.mem_map.mp hmem
    exact Binding.within_start n (hnodes n hn)
  | fixed h =>
    simp only [evaluate, meets_pure]
    intro b hmem
    obtain ⟨n, hn, rfl⟩ := List.mem_map.mp hmem
    exact Binding.within_start n (h n hn)
  | here =>
    obtain ⟨b, rfl⟩ := Option.isSome_iff_exists.mp (hseed rfl)
    simpa [evaluate] using hb b rfl
  | follow _ _ ihs ihv =>
    refine meets_bind _ _ _ (meets_admitted _ _ (ihv none hunseeded hnone)) fun nodes _ => ?_
    refine meets_bind _ _ _ (ihs seed hseed hb) fun found hfound => ?_
    refine meets_flatMapM _ _ _ fun b hmem => ?_
    exact meets_bind _ _ _ (meets_hops hs _ nodes b.node (hfound b hmem).node) fun out hout =>
      Binding.within_map_moved b out (hfound b hmem) hout
  | predicates _ ih =>
    refine meets_bind _ _ _ (ih seed hseed hb) fun found hfound => ?_
    refine meets_flatMapM _ _ _ fun b hmem => ?_
    refine meets_bind _ _ _ (hs.quadsBy _ b.node (hfound b hmem).node) fun out hout => ?_
    exact Binding.within_map_moved b _ (hfound b hmem)
      (known_predicates out fun q hq => (hout q hq).2.1)
  | savePredicates _ ih =>
    refine meets_bind _ _ _ (ih seed hseed hb) fun found hfound => ?_
    refine meets_flatMapM _ _ _ fun b hmem => ?_
    refine meets_bind _ _ _ (hs.quadsBy _ b.node (hfound b hmem).node) fun out hout => ?_
    exact Binding.within_map_tagged b _ _ (hfound b hmem)
      (known_predicates out fun q hq => (hout q hq).2.1)
  | save _ _ ihs ihv =>
    refine meets_bind _ _ _ (meets_admitted _ _ (ihv none hunseeded hnone)) fun nodes _ => ?_
    refine meets_bind _ _ _ (ihs seed hseed hb) fun found hfound => ?_
    refine meets_flatMapM _ _ _ fun b hmem => ?_
    refine meets_bind _ _ _ (meets_quads hs _ nodes b.node (hfound b hmem).node)
      fun out hout => ?_
    rw [meets_pure]
    intro b' hb'
    obtain ⟨q, hq, rfl⟩ := List.mem_map.mp hb'
    exact Binding.within_tagged b _ _ (hfound b hmem) (hout q hq)
  | saveAll _ ih =>
    refine meets_bind _ _ _ (ih seed hseed hb) fun found hfound => ?_
    exact meets_flatMapM _ _ _ fun b hmem => meets_saveAll hs _ b (hfound b hmem)
  | has _ _ ihs ihv =>
    refine meets_bind _ _ _ (meets_admitted _ _ (ihv none hunseeded hnone)) fun nodes _ => ?_
    refine meets_bind _ _ _ (ihs seed hseed hb) fun found hfound => ?_
    refine meets_flatMapM _ _ _ fun b hmem => ?_
    refine meets_bind _ _ _ (meets_quads hs _ nodes b.node (hfound b hmem).node) fun out _ => ?_
    rw [meets_pure]
    split
    · simpa using hfound b hmem
    · simp
  | isOneOf _ ih =>
    refine meets_bind _ _ _ (ih seed hseed hb) fun found hfound => ?_
    rw [meets_pure]
    exact fun b hmem => hfound b (List.mem_of_mem_filter hmem)
  | tag _ ih =>
    refine meets_bind _ _ _ (ih seed hseed hb) fun found hfound => ?_
    rw [meets_pure]
    intro b' hb'
    obtain ⟨b, hmem, rfl⟩ := List.mem_map.mp hb'
    exact Binding.within_tagged b _ b.node (hfound b hmem) (hfound b hmem).node
  | @back _ _ name _ ih =>
    refine meets_bind _ _ _ (ih seed hseed hb) fun found hfound => ?_
    rw [meets_pure]
    intro b' hb'
    obtain ⟨b, hmem, hmoved⟩ := List.mem_filterMap.mp hb'
    cases name with
    | none =>
      cases hmoved
      exact Binding.within_moved b b.origin (hfound b hmem) (hfound b hmem).origin
    | some name =>
      -- A name that is missing drops the match, and one that is there stands for a known node.
      obtain ⟨n, hn, rfl⟩ := Option.map_eq_some_iff.mp hmoved
      exact Binding.within_moved b n (hfound b hmem) ((hfound b hmem).tags name n hn)
  | union _ _ ihl ihr =>
    refine meets_bind _ _ _ (ihl seed hseed hb) fun left hleft => ?_
    refine meets_bind _ _ _ (ihr seed hseed hb) fun right hright => ?_
    rw [meets_pure]
    intro b hmem
    rcases List.mem_append.mp hmem with hmem | hmem
    · exact hleft b hmem
    · exact hright b hmem
  | intersect _ _ ihl ihr =>
    refine meets_bind _ _ _ (ihr seed hseed hb) fun right hright => ?_
    refine meets_bind _ _ _ (ihl seed hseed hb) fun left hleft => ?_
    rw [meets_pure]
    intro b' hb'
    obtain ⟨b, hmem, hother⟩ := List.mem_filterMap.mp hb'
    obtain ⟨other, hfind, rfl⟩ := Option.map_eq_some_iff.mp hother
    exact Binding.within_absorb b other (hleft b hmem)
      (hright other (List.mem_of_find?_eq_some hfind))
  | except _ _ ihl ihr =>
    refine meets_bind _ _ _ (ihr seed hseed hb) fun right _ => ?_
    refine meets_bind _ _ _ (ihl seed hseed hb) fun left hleft => ?_
    rw [meets_pure]
    exact fun b hmem => hleft b (List.mem_of_mem_filter hmem)
  | limit _ ih =>
    refine meets_bind _ _ _ (ih seed hseed hb) fun found hfound => ?_
    rw [meets_pure]
    exact fun b hmem => hfound b (List.mem_of_mem_take hmem)
  | skip _ ih =>
    refine meets_bind _ _ _ (ih seed hseed hb) fun found hfound => ?_
    rw [meets_pure]
    exact fun b hmem => hfound b (List.mem_of_mem_drop hmem)
  | unique _ ih =>
    refine meets_bind _ _ _ (ih seed hseed hb) fun found hfound => ?_
    rw [meets_pure]
    exact fun b hmem => hfound b ((firsts_sublist found).subset hmem)
  | order _ ih =>
    refine meets_bind _ _ _ (ih seed hseed hb) fun found hfound => ?_
    exact meets_sorted hs found hfound
  | optional _ _ ihs ihe =>
    refine meets_bind _ _ _ (ihs seed hseed hb) fun found hfound => ?_
    refine meets_mapM _ _ _ fun b hmem => ?_
    refine meets_bind _ _ _ (ihe (some b) (fun _ => rfl) ?_) fun out hout => ?_
    · simpa using hfound b hmem
    · rw [meets_pure]
      split
      · next first hfirst =>
        exact Binding.within_extend b first (hfound b hmem) (hout first (List.mem_of_head? hfirst))
      · exact hfound b hmem
  | whereAll _ _ ihs ihc =>
    refine meets_bind _ _ _ (ihs seed hseed hb) fun found hfound => ?_
    refine meets_flatMapM _ _ _ fun b hmem => ?_
    refine join_meets _ [b] (fun clause hclause b' hb' => ?_) (by simpa using hfound b hmem)
    exact ihc clause hclause (some b') (fun _ => rfl) (by simpa using hb')
  | filter _ ih =>
    refine meets_bind _ _ _ (ih seed hseed hb) fun found hfound => ?_
    refine meets_flatMapM _ _ _ fun b hmem => ?_
    refine meets_bind _ _ _ (hs.termOf b.node (hfound b hmem).node) fun t _ => ?_
    rw [meets_pure]
    split
    · simpa using hfound b hmem
    · simp

end Path

end QuadGraph
