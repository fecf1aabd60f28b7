import QuadGraph.Proofs.Path.Combinations
import QuadGraph.Proofs.Path.Relative
import QuadGraph.Proofs.Store.Answers
import QuadGraph.Proofs.Store.Representation

/-! Paths that lead at least as far when there is more data. Order, repetitions and names may all
change with one more quad, so matches are compared by their nodes only. A path that drops no match
because something is there comes to every node again that it came to before. -/
namespace QuadGraph

open Outcome

/-- A path that asks only for what is there. It does not go back, takes away no nodes, counts no
matches and has no optional parts. -/
inductive Path.Positive : Path → Prop
  | all : Positive .all
  | fixed {nodes} : Positive (.fixed nodes)
  | here : Positive .here
  | follow {source route via} (hs : Positive source) (hv : Positive via) :
    Positive (.follow source route via)
  | predicates {source way} (hs : Positive source) : Positive (.predicates source way)
  | savePredicates {source way name} (hs : Positive source) :
    Positive (.savePredicates source way name)
  | save {source way via name} (hs : Positive source) (hv : Positive via) :
    Positive (.save source way via name)
  | saveAll {source way} (hs : Positive source) : Positive (.saveAll source way)
  | has {source way via targets} (hs : Positive source) (hv : Positive via) :
    Positive (.has source way via targets)
  | isOneOf {source nodes} (hs : Positive source) : Positive (.isOneOf source nodes)
  | tag {source name} (hs : Positive source) : Positive (.tag source name)
  | union {left right} (hl : Positive left) (hr : Positive right) : Positive (.union left right)
  | intersect {left right} (hl : Positive left) (hr : Positive right) :
    Positive (.intersect left right)
  | unique {source} (hs : Positive source) : Positive (.unique source)
  | order {source} (hs : Positive source) : Positive (.order source)
  | whereAll {source clauses} (hs : Positive source) (hc : ∀ clause ∈ clauses, Positive clause) :
    Positive (.whereAll source clauses)
  | filter {source condition} (hs : Positive source) : Positive (.filter source condition)

/-- A store that has become a larger one: every node and every quad is still found, and terms have
stayed. -/
structure QuadStore.GrowsTo (store larger : QuadStore) : Prop where
  nodes (found : List NodeId) : store.nodes = .ok found →
    ∃ more, larger.nodes = .ok more ∧ found ⊆ more
  quadsBy (position : Position) (n : NodeId) (found : List IndexedQuad) :
    store.quadsBy position n = .ok found →
      ∃ more, larger.quadsBy position n = .ok more ∧ found ⊆ more
  termOf (n : NodeId) (t : Term) : store.termOf n = .ok (some t) → larger.termOf n = .ok (some t)

/-- Every match stands at a node at which some match of the others stands. -/
def Binding.AmongNodes (found more : List Binding) : Prop :=
  ∀ b ∈ found, ∃ c ∈ more, c.node = b.node

namespace Graph

theorem quadsBy_ofQuads_append (quads later : List Quad) (position : Position) (n : NodeId) :
    (ofQuads quads).quadsBy position n ⊆ (ofQuads (quads ++ later)).quadsBy position n := by
  induction later using List.reverseRecOn with
  | nil =>
    rw [List.append_nil]
    exact List.Subset.refl _
  | append_singleton later q ih =>
    refine List.Subset.trans ih ?_
    obtain ⟨hi, hg⟩ := holds_ofQuads (quads ++ later)
    rw [← List.append_assoc, ofQuads_concat]
    by_cases hq : q ∈ quads ++ later
    · rw [add_of_mem _ _ hi hg q hq]
      exact List.Subset.refl _
    · obtain ⟨stored, -, -, hquads, -⟩ := add_of_not_mem _ _ hi hg q hq
      rw [(appends_of_push _ q stored hquads).quadsBy position n]
      exact List.subset_append_left _ _

theorem growsTo_append (quads later : List Quad) :
    (ofQuads quads).toStore.GrowsTo (ofQuads (quads ++ later)).toStore := by
  have hterm := termOf?_ofQuads_append quads later
  constructor
  · rintro _ ⟨⟩
    refine ⟨_, rfl, fun n hn => ?_⟩
    obtain ⟨t, ht⟩ := ((consistent_ofQuads quads).mem_nodes n).mp hn
    exact ((consistent_ofQuads (quads ++ later)).mem_nodes n).mpr ⟨t, hterm n t ht⟩
  · rintro position n _ ⟨⟩
    exact ⟨_, rfl, quadsBy_ofQuads_append quads later position n⟩
  · intro n t ht
    exact congrArg Except.ok (hterm n t (Except.ok.inj ht))

end Graph

namespace Binding

theorem amongNodes_map {α : Type} (f g : α → Binding) (xs ys : List α) (h : xs ⊆ ys)
    (hfg : ∀ x, (g x).node = (f x).node) : AmongNodes (xs.map f) (ys.map g) := by
  intro b hb
  obtain ⟨x, hx, rfl⟩ := List.mem_map.mp hb
  exact ⟨g x, List.mem_map.mpr ⟨x, h hx, rfl⟩, hfg x⟩

theorem amongNodes_ite (b c : Binding) (keep keep' : Bool) (hbc : c.node = b.node)
    (h : keep = true → keep' = true) :
    AmongNodes (if keep then [b] else []) (if keep' then [c] else []) := by
  cases keep with
  | false => exact nofun
  | true =>
    rw [h rfl]
    exact List.forall_mem_singleton.mpr ⟨c, List.mem_cons_self, hbc⟩

/-- Matches that have all stayed at one node are among others as soon as one of these is there. -/
theorem amongNodes_of_stays (n : NodeId) (found more : List Binding)
    (hfound : ∀ b ∈ found, b.node = n) (hmore : ∀ c ∈ more, c.node = n)
    (h : found ≠ [] → more ≠ []) : AmongNodes found more := by
  intro b hb
  obtain ⟨c, hc⟩ := List.exists_mem_of_ne_nil more (h (List.ne_nil_of_mem hb))
  exact ⟨c, hc, by rw [hmore c hc, hfound b hb]⟩

/-- Going on from matches among others, from each one to matches among those from the others. -/
theorem amongNodes_flatMapM (f g : Binding → Except StoreError (List Binding))
    (found more out out' : List Binding) (h : AmongNodes found more)
    (hfg : ∀ b c : Binding, c.node = b.node → ∀ ys zs, f b = .ok ys → g c = .ok zs →
      AmongNodes ys zs)
    (hout : found.flatMapM f = .ok out) (hout' : more.flatMapM g = .ok out') :
    AmongNodes out out' := by
  intro b' hb'
  obtain ⟨b, hb, ys, hys, hmem⟩ := (mem_flatMapM f found out hout b').mp hb'
  obtain ⟨c, hc, hnode⟩ := h b hb
  obtain ⟨outs, houts, -⟩ := (flatMapM_eq_ok g more out').mp hout'
  obtain ⟨zs, hzs⟩ := (exists_mapM_eq_ok_iff g more).mp ⟨outs, houts⟩ c hc
  obtain ⟨c', hc', hnode'⟩ := hfg b c hnode ys zs hys hzs b' hmem
  exact ⟨c', (mem_flatMapM g more out' hout' c').mpr ⟨c, hc, zs, hzs, hc'⟩, hnode'⟩

end Binding

namespace Walking

open Binding

variable {store larger : QuadStore}

theorem quads_grows (h : store.GrowsTo larger) (way : Way) (nodes nodes' : Option (List NodeId))
    (hnodes : ∀ n, admits nodes n → admits nodes' n) (n : NodeId) (found : List IndexedQuad)
    (hfound : quads store way nodes n = .ok found) :
    ∃ more, quads larger way nodes' n = .ok more ∧ found ⊆ more := by
  obtain ⟨all, hall, ⟨⟩⟩ := (bind_eq_ok _ _ found).mp hfound
  obtain ⟨all', hall', hsubset⟩ := h.quadsBy way.near n all hall
  refine ⟨_, by rw [quads, hall']; rfl, fun q hq => ?_⟩
  obtain ⟨hmem, hadmits⟩ := List.mem_filter.mp hq
  exact List.mem_filter.mpr ⟨hsubset hmem, hnodes q.predicate hadmits⟩

theorem hops_grows (h : store.GrowsTo larger) (route : Route)
    (nodes nodes' : Option (List NodeId)) (hnodes : ∀ n, admits nodes n → admits nodes' n)
    (n : NodeId) (ends ends' : List NodeId) (hends : hops store route nodes n = .ok ends)
    (hends' : hops larger route nodes' n = .ok ends') : ends ⊆ ends' := by
  intro m hm
  obtain ⟨way, hway, found, hfound, q, hq, hfar⟩ :=
    (mem_hops store route nodes n ends hends m).mp hm
  obtain ⟨more, hmore, hsubset⟩ := quads_grows h way nodes nodes' hnodes n found hfound
  exact (mem_hops larger route nodes' n ends' hends' m).mpr
    ⟨way, hway, more, hmore, q, hsubset hq, hfar⟩

/-- Naming the ends of all quads stays at the node, and gives a match if there is a quad. -/
theorem saveAll_stays (way : Way) (b : Binding) (out : List Binding)
    (h : saveAll store way b = .ok out) :
    (∀ c ∈ out, c.node = b.node) ∧ ∃ found, store.quadsBy way.near b.node = .ok found ∧
      (out = [] ↔ found = []) := by
  rw [saveAll_eq, bind_eq_ok] at h
  obtain ⟨found, hfound, hrest⟩ := h
  obtain ⟨terms, -, hout⟩ := (bind_eq_ok _ _ out).mp hrest
  rw [pure_eq_ok] at hout
  by_cases hnone : found = []
  · rw [if_pos (List.isEmpty_iff.mpr hnone)] at hout
    rw [← hout]
    exact ⟨nofun, found, hfound, iff_of_true rfl hnone⟩
  · rw [if_neg (mt List.isEmpty_iff.mp hnone)] at hout
    rw [← hout]
    refine ⟨node_of_mem_spread [b] b.node (by simp), found, hfound, ?_⟩
    have hchoices := farEnds_nonempty way found ((predicates found).zip (terms.map Term.tagName))
      fun p hp => (List.of_mem_zip hp).1
    exact iff_of_false (spread_ne_nil [b] (List.cons_ne_nil b []) hchoices) hnone

end Walking

namespace Path

open Binding Walking

/-- Fewer nodes have to be known for a path that names few. -/
theorem Sound.imp {known known' : NodeId → Prop} {seeded : Bool} {p : Path}
    (hp : p.Sound known seeded) (h : ∀ n, known n → known' n) : p.Sound known' seeded := by
  induction hp with
  | all => exact .all
  | fixed hnodes => exact .fixed fun n hn => h n (hnodes n hn)
  | here => exact .here
  | follow _ _ ihs ihv => exact .follow ihs ihv
  | predicates _ ih => exact .predicates ih
  | savePredicates _ ih => exact .savePredicates ih
  | save _ _ ihs ihv => exact .save ihs ihv
  | saveAll _ ih => exact .saveAll ih
  | has _ _ ihs ihv => exact .has ihs ihv
  | isOneOf _ ih => exact .isOneOf ih
  | tag _ ih => exact .tag ih
  | back _ ih => exact .back ih
  | union _ _ ihl ihr => exact .union ihl ihr
  | intersect _ _ ihl ihr => exact .intersect ihl ihr
  | except _ _ ihl ihr => exact .except ihl ihr
  | limit _ ih => exact .limit ih
  | skip _ ih => exact .skip ih
  | unique _ ih => exact .unique ih
  | order _ ih => exact .order ih
  | optional _ _ ihs ihe => exact .optional ihs ihe
  | whereAll _ _ ihs ihc => exact .whereAll ihs ihc
  | filter _ ih => exact .filter ih

/-- A path that comes over the larger store to every node again, also from another match at the
node from which it was walked. -/
def Grows (store larger : QuadStore) (p : Path) : Prop :=
  ∀ seed seed' : Option Binding, seed'.map (·.node) = seed.map (·.node) → ∀ found more,
    p.evaluate store seed = .ok found → p.evaluate larger seed' = .ok more →
      AmongNodes found more

variable {store larger : QuadStore}

theorem grows_of_stage (p source : Path) (hs : source.Grows store larger)
    (hp : p.pointwise? = some source)
    (h : ∀ stage stage', p.stage store = .ok stage → p.stage larger = .ok stage' →
      ∀ b c : Binding, c.node = b.node → ∀ ys zs, stage b = .ok ys → stage' c = .ok zs →
        AmongNodes ys zs) : p.Grows store larger := by
  intro seed seed' hseed found more hfound hmore
  obtain ⟨stage, hstage, bs, hbs, hfound⟩ :=
    (evaluate_eq_ok_of_pointwise store p source seed found hp).mp hfound
  obtain ⟨stage', hstage', cs, hcs, hmore⟩ :=
    (evaluate_eq_ok_of_pointwise larger p source seed' more hp).mp hmore
  exact amongNodes_flatMapM stage stage' bs cs found more (hs seed seed' hseed bs cs hbs hcs)
    (h stage stage' hstage hstage') hfound hmore

/-- Whatever predicate was admitted is admitted over the larger store. -/
theorem admitted_grows (via : Path) (hv : via.Grows store larger)
    (nodes nodes' : Option (List NodeId))
    (hnodes : admitted via (via.evaluate store none) = .ok nodes)
    (hnodes' : admitted via (via.evaluate larger none) = .ok nodes') (n : NodeId)
    (h : admits nodes n) : admits nodes' n := by
  unfold admitted at hnodes hnodes'
  split at hnodes
  · next hall =>
    rw [if_pos hall] at hnodes'
    cases hnodes'
    rfl
  · next hall =>
    rw [if_neg hall] at hnodes'
    obtain ⟨found, hfound, ⟨⟩⟩ := (bind_eq_ok _ _ nodes).mp hnodes
    obtain ⟨more, hmore, ⟨⟩⟩ := (bind_eq_ok _ _ nodes').mp hnodes'
    have hamong : AmongNodes found more := hv none none rfl found more hfound hmore
    simp only [admits, Option.all_some, List.contains_iff_mem, List.mem_map] at h ⊢
    obtain ⟨b, hb, rfl⟩ := h
    exact hamong b hb

theorem grows_follow (h : store.GrowsTo larger) (source via : Path) (route : Route)
    (hs : source.Grows store larger) (hv : via.Grows store larger) :
    (follow source route via).Grows store larger := by
  refine grows_of_stage _ source hs rfl fun stage stage' hstage hstage' b c hbc ys zs hys hzs => ?_
  obtain ⟨nodes, hnodes, ⟨⟩⟩ := (bind_eq_ok _ _ stage).mp hstage
  obtain ⟨nodes', hnodes', ⟨⟩⟩ := (bind_eq_ok _ _ stage').mp hstage'
  obtain ⟨ends, hends, ⟨⟩⟩ := (bind_eq_ok _ _ ys).mp hys
  obtain ⟨ends', hends', ⟨⟩⟩ := (bind_eq_ok _ _ zs).mp hzs
  rw [hbc] at hends'
  have hadmits := admitted_grows via hv nodes nodes' hnodes hnodes'
  exact amongNodes_map _ _ ends ends' (hops_grows h route nodes nodes' hadmits b.node ends ends'
    hends hends') fun _ => rfl

theorem predicates_grows (h : store.GrowsTo larger) (position : Position) (n : NodeId)
    (found more : List IndexedQuad) (hfound : store.quadsBy position n = .ok found)
    (hmore : larger.quadsBy position n = .ok more) :
    Walking.predicates found ⊆ Walking.predicates more := by
  have hsubset : found ⊆ more := subset_of_exists_ok (h.quadsBy position n found hfound) hmore
  intro m hm
  obtain ⟨q, hq, hqm⟩ := (mem_predicates found m).mp hm
  exact (mem_predicates more m).mpr ⟨q, hsubset hq, hqm⟩

theorem grows_predicates (h : store.GrowsTo larger) (source : Path) (way : Way)
    (hs : source.Grows store larger) : (predicates source way).Grows store larger := by
  refine grows_of_stage _ source hs rfl ?_
  rintro _ _ ⟨⟩ ⟨⟩ b c hbc ys zs hys hzs
  obtain ⟨found, hfound, ⟨⟩⟩ := (bind_eq_ok _ _ ys).mp hys
  obtain ⟨more, hmore, ⟨⟩⟩ := (bind_eq_ok _ _ zs).mp hzs
  rw [hbc] at hmore
  exact amongNodes_map _ _ _ _ (predicates_grows h _ _ found more hfound hmore) fun _ => rfl

theorem grows_savePredicates (h : store.GrowsTo larger) (source : Path) (way : Way)
    (name : String) (hs : source.Grows store larger) :
    (savePredicates source way name).Grows store larger := by
  refine grows_of_stage _ source hs rfl ?_
  rintro _ _ ⟨⟩ ⟨⟩ b c hbc ys zs hys hzs
  obtain ⟨found, hfound, ⟨⟩⟩ := (bind_eq_ok _ _ ys).mp hys
  obtain ⟨more, hmore, ⟨⟩⟩ := (bind_eq_ok _ _ zs).mp hzs
  rw [hbc] at hmore
  exact amongNodes_map _ _ _ _ (predicates_grows h _ _ found more hfound hmore) fun _ => hbc

theorem grows_save (h : store.GrowsTo larger) (source via : Path) (way : Way) (name : String)
    (hs : source.Grows store larger) (hv : via.Grows store larger) :
    (save source way via name).Grows store larger := by
  refine grows_of_stage _ source hs rfl fun stage stage' hstage hstage' b c hbc ys zs hys hzs => ?_
  obtain ⟨nodes, hnodes, ⟨⟩⟩ := (bind_eq_ok _ _ stage).mp hstage
  obtain ⟨nodes', hnodes', ⟨⟩⟩ := (bind_eq_ok _ _ stage').mp hstage'
  obtain ⟨found, hfound, ⟨⟩⟩ := (bind_eq_ok _ _ ys).mp hys
  obtain ⟨more, hmore, ⟨⟩⟩ := (bind_eq_ok _ _ zs).mp hzs
  rw [hbc] at hmore
  have hadmits := admitted_grows via hv nodes nodes' hnodes hnodes'
  have hsubset : found ⊆ more :=
    subset_of_exists_ok (quads_grows h way nodes nodes' hadmits b.node found hfound) hmore
  exact amongNodes_map _ _ found more hsubset fun _ => hbc

theorem grows_saveAll (h : store.GrowsTo larger) (source : Path) (way : Way)
    (hs : source.Grows store larger) : (saveAll source way).Grows store larger := by
  refine grows_of_stage _ source hs rfl ?_
  rintro _ _ ⟨⟩ ⟨⟩ b c hbc ys zs hys hzs
  obtain ⟨hstays, found, hfound, hempty⟩ := saveAll_stays way b ys hys
  obtain ⟨hstays', more, hmore, hempty'⟩ := saveAll_stays way c zs hzs
  rw [hbc] at hstays' hmore
  have hsubset : found ⊆ more :=
    subset_of_exists_ok (h.quadsBy way.near b.node found hfound) hmore
  refine amongNodes_of_stays b.node ys zs hstays hstays' fun hne hnone => hne ?_
  rw [hempty'.mp hnone] at hsubset
  exact hempty.mpr (List.subset_nil.mp hsubset)

theorem grows_has (h : store.GrowsTo larger) (source via : Path) (way : Way)
    (targets : Option (List NodeId)) (hs : source.Grows store larger)
    (hv : via.Grows store larger) : (has source way via targets).Grows store larger := by
  refine grows_of_stage _ source hs rfl fun stage stage' hstage hstage' b c hbc ys zs hys hzs => ?_
  obtain ⟨nodes, hnodes, ⟨⟩⟩ := (bind_eq_ok _ _ stage).mp hstage
  obtain ⟨nodes', hnodes', ⟨⟩⟩ := (bind_eq_ok _ _ stage').mp hstage'
  obtain ⟨found, hfound, ⟨⟩⟩ := (bind_eq_ok _ _ ys).mp hys
  obtain ⟨more, hmore, ⟨⟩⟩ := (bind_eq_ok _ _ zs).mp hzs
  rw [hbc] at hmore
  have hadmits := admitted_grows via hv nodes nodes' hnodes hnodes'
  have hsubset : found ⊆ more :=
    subset_of_exists_ok (quads_grows h way nodes nodes' hadmits b.node found hfound) hmore
  refine amongNodes_ite b c _ _ hbc fun hany => ?_
  obtain ⟨q, hq, htarget⟩ := List.any_eq_true.mp hany
  exact List.any_eq_true.mpr ⟨q, hsubset hq, htarget⟩

theorem grows_isOneOf (source : Path) (nodes : List NodeId) (hs : source.Grows store larger) :
    (isOneOf source nodes).Grows store larger := by
  refine grows_of_stage _ source hs rfl ?_
  rintro _ _ ⟨⟩ ⟨⟩ b c hbc _ _ ⟨⟩ ⟨⟩
  refine amongNodes_ite b c _ _ hbc fun hkeep => ?_
  rwa [hbc]

theorem grows_tag (source : Path) (name : String) (hs : source.Grows store larger) :
    (tag source name).Grows store larger := by
  refine grows_of_stage _ source hs rfl ?_
  rintro _ _ ⟨⟩ ⟨⟩ b c hbc _ _ ⟨⟩ ⟨⟩
  exact List.forall_mem_singleton.mpr ⟨_, List.mem_cons_self, hbc⟩

theorem grows_filter (h : store.GrowsTo larger) (source : Path) (condition : Filter)
    (hs : source.Grows store larger) : (filter source condition).Grows store larger := by
  refine grows_of_stage _ source hs rfl ?_
  rintro _ _ ⟨⟩ ⟨⟩ b c hbc ys zs hys hzs
  obtain ⟨t, ht, ⟨⟩⟩ := (bind_eq_ok _ _ ys).mp hys
  obtain ⟨t', ht', ⟨⟩⟩ := (bind_eq_ok _ _ zs).mp hzs
  refine amongNodes_ite b c _ _ hbc fun hkeep => ?_
  cases t with
  | none => cases hkeep
  | some t =>
    -- The node had a term, and this has stayed.
    rw [hbc, h.termOf b.node t ht] at ht'
    cases ht'
    exact hkeep

theorem join_grows (clauses : List Path) (hc : ∀ clause ∈ clauses, clause.Grows store larger)
    (bs cs found more : List Binding) (h : AmongNodes bs cs)
    (hfound : join store clauses bs = .ok found) (hmore : join larger clauses cs = .ok more) :
    AmongNodes found more := by
  induction clauses generalizing bs cs with
  | nil =>
    cases hfound
    cases hmore
    exact h
  | cons clause rest ih =>
    rw [List.forall_mem_cons] at hc
    rw [join] at hfound hmore
    obtain ⟨next, hnext, hfound⟩ := (bind_eq_ok _ _ found).mp hfound
    obtain ⟨next', hnext', hmore⟩ := (bind_eq_ok _ _ more).mp hmore
    refine ih hc.2 next next' (amongNodes_flatMapM _ _ bs cs next next' h ?_ hnext hnext')
      hfound hmore
    intro b c hbc ys zs hys hzs
    obtain ⟨rs, hrs, ⟨⟩⟩ := (bind_eq_ok _ _ ys).mp hys
    obtain ⟨rs', hrs', ⟨⟩⟩ := (bind_eq_ok _ _ zs).mp hzs
    have hclause : AmongNodes rs rs' :=
      hc.1 (some b) (some c) (congrArg some hbc) rs rs' hrs hrs'
    -- Clauses leave a match where it is, so it only counts whether they have matches.
    refine amongNodes_of_stays b.node _ _ ?_ ?_ ?_
    · simp [extend]
    · simp [extend, hbc]
    · rw [ne_eq, ne_eq, List.map_eq_nil_iff, List.map_eq_nil_iff]
      intro hne
      obtain ⟨r, hr⟩ := List.exists_mem_of_ne_nil rs hne
      obtain ⟨r', hr', -⟩ := hclause r hr
      exact List.ne_nil_of_mem hr'

theorem grows_whereAll (source : Path) (clauses : List Path) (hs : source.Grows store larger)
    (hc : ∀ clause ∈ clauses, clause.Grows store larger) :
    (whereAll source clauses).Grows store larger := by
  refine grows_of_stage _ source hs rfl ?_
  rintro _ _ ⟨⟩ ⟨⟩ b c hbc ys zs hys hzs
  refine join_grows clauses hc [b] [c] ys zs ?_ hys hzs
  exact List.forall_mem_singleton.mpr ⟨c, List.mem_cons_self, hbc⟩

theorem grows_union (left right : Path) (hl : left.Grows store larger)
    (hr : right.Grows store larger) : (union left right).Grows store larger := by
  intro seed seed' hseed found more hfound hmore
  obtain ⟨ls, hls, hfound⟩ := (bind_eq_ok _ _ found).mp hfound
  obtain ⟨rs, hrs, ⟨⟩⟩ := (bind_eq_ok _ _ found).mp hfound
  obtain ⟨ls', hls', hmore⟩ := (bind_eq_ok _ _ more).mp hmore
  obtain ⟨rs', hrs', ⟨⟩⟩ := (bind_eq_ok _ _ more).mp hmore
  intro b hb
  rcases List.mem_append.mp hb with hb | hb
  · obtain ⟨c, hc, hnode⟩ := hl seed seed' hseed ls ls' hls hls' b hb
    exact ⟨c, List.mem_append_left _ hc, hnode⟩
  · obtain ⟨c, hc, hnode⟩ := hr seed seed' hseed rs rs' hrs hrs' b hb
    exact ⟨c, List.mem_append_right _ hc, hnode⟩

theorem grows_intersect (left right : Path) (hl : left.Grows store larger)
    (hr : right.Grows store larger) : (intersect left right).Grows store larger := by
  intro seed seed' hseed found more hfound hmore
  obtain ⟨rs, hrs, hfound⟩ := (bind_eq_ok _ _ found).mp hfound
  obtain ⟨ls, hls, ⟨⟩⟩ := (bind_eq_ok _ _ found).mp hfound
  obtain ⟨rs', hrs', hmore⟩ := (bind_eq_ok _ _ more).mp hmore
  obtain ⟨ls', hls', ⟨⟩⟩ := (bind_eq_ok _ _ more).mp hmore
  intro b' hb'
  obtain ⟨b, hb, hother⟩ := List.mem_filterMap.mp hb'
  obtain ⟨r, hfind, rfl⟩ := Option.map_eq_some_iff.mp hother
  obtain ⟨c, hc, hnode⟩ := hl seed seed' hseed ls ls' hls hls' b hb
  obtain ⟨r', hr', hnode'⟩ :=
    hr seed seed' hseed rs rs' hrs hrs' r (List.mem_of_find?_eq_some hfind)
  -- Some match on the right stands where the one on the left does, if not the one from before.
  have hsame : r.node = b.node := by simpa using List.find?_some hfind
  have hsome : (rs'.find? (·.node = c.node)).isSome :=
    List.find?_isSome.mpr ⟨r', hr', by simp [hnode', hsame, hnode]⟩
  obtain ⟨first, hfirst⟩ := Option.isSome_iff_exists.mp hsome
  exact ⟨c.absorb first, List.mem_filterMap.mpr ⟨c, hc, by rw [hfirst]; rfl⟩, hnode⟩

theorem grows_unique (source : Path) (hs : source.Grows store larger) :
    (unique source).Grows store larger := by
  intro seed seed' hseed found more hfound hmore
  obtain ⟨bs, hbs, ⟨⟩⟩ := (bind_eq_ok _ _ found).mp hfound
  obtain ⟨cs, hcs, ⟨⟩⟩ := (bind_eq_ok _ _ more).mp hmore
  intro b hb
  have hamong := hs seed seed' hseed bs cs hbs hcs b ((firsts_sublist bs).subset hb)
  exact (exists_mem_firsts cs b.node).mpr hamong

theorem grows_order (source : Path) (hs : source.Grows store larger) :
    (order source).Grows store larger := by
  intro seed seed' hseed found more hfound hmore
  obtain ⟨bs, hbs, hfound⟩ := (bind_eq_ok _ _ found).mp hfound
  obtain ⟨cs, hcs, hmore⟩ := (bind_eq_ok _ _ more).mp hmore
  intro b hb
  obtain ⟨c, hc, hnode⟩ := hs seed seed' hseed bs cs hbs hcs b
    ((sorted_perm store bs found hfound).subset hb)
  exact ⟨c, (sorted_perm larger cs more hmore).symm.subset hc, hnode⟩

theorem grows_all (h : store.GrowsTo larger) : all.Grows store larger := by
  intro _ _ _ found more hfound hmore
  obtain ⟨nodes, hnodes, ⟨⟩⟩ := (bind_eq_ok _ _ found).mp hfound
  obtain ⟨nodes', hnodes', ⟨⟩⟩ := (bind_eq_ok _ _ more).mp hmore
  have hsubset : nodes ⊆ nodes' := subset_of_exists_ok (h.nodes nodes hnodes) hnodes'
  exact amongNodes_map _ _ nodes nodes' hsubset fun _ => rfl

theorem grows_here : here.Grows store larger := by
  intro seed seed' hseed found more hfound hmore
  cases seed with
  | none => cases hfound
  | some b =>
    cases seed' with
    | none => cases hmore
    | some c =>
      cases hfound
      cases hmore
      exact List.forall_mem_singleton.mpr ⟨c, List.mem_cons_self, Option.some.inj hseed⟩

theorem grows_of_positive (h : store.GrowsTo larger) (p : Path) (hp : p.Positive) :
    p.Grows store larger := by
  induction hp with
  | all => exact grows_all h
  | @fixed nodes =>
    rintro _ _ _ _ _ ⟨⟩ ⟨⟩
    exact amongNodes_map _ _ nodes nodes (List.Subset.refl nodes) fun _ => rfl
  | here => exact grows_here
  | follow _ _ ihs ihv => exact grows_follow h _ _ _ ihs ihv
  | predicates _ ih => exact grows_predicates h _ _ ih
  | savePredicates _ ih => exact grows_savePredicates h _ _ _ ih
  | save _ _ ihs ihv => exact grows_save h _ _ _ _ ihs ihv
  | saveAll _ ih => exact grows_saveAll h _ _ ih
  | has _ _ ihs ihv => exact grows_has h _ _ _ _ ihs ihv
  | isOneOf _ ih => exact grows_isOneOf _ _ ih
  | tag _ ih => exact grows_tag _ _ ih
  | union _ _ ihl ihr => exact grows_union _ _ ihl ihr
  | intersect _ _ ihl ihr => exact grows_intersect _ _ ihl ihr
  | unique _ ih => exact grows_unique _ ih
  | order _ ih => exact grows_order _ ih
  | whereAll _ _ ihs ihc => exact grows_whereAll _ _ ihs ihc
  | filter _ ih => exact grows_filter h _ _ ih

/-- Adding quads takes no node away from a path that asks only for what is there. The path can be
walked before and after, and every node to which it came before it comes to again. -/
theorem evaluate_ofQuads_append (quads later : List Quad) (p : Path) (hp : p.Positive)
    (hs : p.Sound (Graph.ofQuads quads).Knows false) :
    ∃ found more, p.evaluate (Graph.ofQuads quads).toStore none = .ok found ∧
      p.evaluate (Graph.ofQuads (quads ++ later)).toStore none = .ok more ∧
      ∀ b ∈ found, ∃ c ∈ more, c.node = b.node := by
  have hok (added : List Quad) (hs : p.Sound (Graph.ofQuads added).Knows false) :
      ∃ out, p.evaluate (Graph.ofQuads added).toStore none = .ok out := by
    obtain ⟨out, hout, -⟩ := (meets_false _).mp
      (evaluate_meets (Graph.answers_ofQuads added) p false hs none (fun h => nomatch h) nofun)
    exact ⟨out, hout⟩
  have hlater : p.Sound (Graph.ofQuads (quads ++ later)).Knows false := by
    refine hs.imp ?_
    rintro n ⟨t, ht⟩
    exact ⟨t, Graph.termOf?_ofQuads_append quads later n t ht⟩
  obtain ⟨found, hfound⟩ := hok quads hs
  obtain ⟨more, hmore⟩ := hok (quads ++ later) hlater
  have hgrows := grows_of_positive (Graph.growsTo_append quads later) p hp
  exact ⟨found, more, hfound, hmore, hgrows none none rfl found more hfound hmore⟩

/-- Someone who likes a person, with the names of all that is said of her: as soon as she knows and
likes more people her first match is another one, but she is still found. -/
theorem evaluate_ofQuads_append_acquaintance :
    let quads := [Quad.ofIris "alice" "likes" "bob" ""]
    let later := [Quad.ofIris "alice" "likes" "dan" "", .ofIris "alice" "knows" "bob" ""]
    let p : Path := .unique (.whereAll (.intersect .all (.fixed [⟨0⟩])) [.saveAll .here .forward])
    let liked : Tags := (∅ : Tags).insert "likes" ⟨2⟩
    p.Positive ∧ p.Sound (Graph.ofQuads quads).Knows false ∧
      p.evaluate (Graph.ofQuads quads).toStore none = .ok [⟨⟨0⟩, ⟨0⟩, liked⟩] ∧
      ∃ more, p.evaluate (Graph.ofQuads (quads ++ later)).toStore none = .ok more ∧
        (∃ c ∈ more, c.node = ⟨0⟩) ∧ ⟨⟨0⟩, ⟨0⟩, liked⟩ ∉ more := by
  intro quads later p liked
  have hp : p.Positive := .unique (.whereAll (.intersect .all .fixed)
    (List.forall_mem_singleton.mpr (.saveAll .here)))
  have hknows : ∀ n ∈ [(⟨0⟩ : NodeId)], (Graph.ofQuads quads).Knows n :=
    List.forall_mem_singleton.mpr ⟨.iri "alice", by decide +kernel⟩
  have hs : p.Sound (Graph.ofQuads quads).Knows false := .unique (.whereAll
    (.intersect .all (.fixed hknows)) (List.forall_mem_singleton.mpr (.saveAll .here)))
  have hfound : p.evaluate (Graph.ofQuads quads).toStore none = .ok [⟨⟨0⟩, ⟨0⟩, liked⟩] := by
    decide +kernel
  have hlater : p.evaluate (Graph.ofQuads (quads ++ later)).toStore none =
      .ok [⟨⟨0⟩, ⟨0⟩, liked.insert "knows" ⟨2⟩⟩] := by
    decide +kernel
  obtain ⟨found, more, hfound', hmore, hamong⟩ := evaluate_ofQuads_append quads later p hp hs
  cases hfound.symm.trans hfound'
  refine ⟨hp, hs, hfound, more, hmore, hamong _ List.mem_cons_self, ?_⟩
  cases hlater.symm.trans hmore
  decide +kernel

end Path

end QuadGraph
