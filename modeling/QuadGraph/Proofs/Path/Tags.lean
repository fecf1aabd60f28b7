import QuadGraph.Proofs.Path.Matches
import QuadGraph.Proofs.Path.Relative

/-! What becomes of the names in a match. Unless a path names nodes after predicates, the names that
it gives are written in it, and every other name is left as it was where the path began. So what a
path walked from a match has named is added to that match, and nothing of it is lost. -/
namespace QuadGraph

open Outcome

namespace Path

mutual

/-- The names that a path gives, those in its extensions and clauses included. What the paths to
predicates name is dropped together with their matches. -/
def written : Path → List String
  | .all => []
  | .fixed _ => []
  | .here => []
  | .follow source _ _ => source.written
  | .predicates source _ => source.written
  | .savePredicates source _ name => name :: source.written
  | .save source _ _ name => name :: source.written
  | .saveAll source _ => source.written
  | .has source _ _ _ => source.written
  | .isOneOf source _ => source.written
  | .tag source name => name :: source.written
  | .back source _ => source.written
  | .union left right => left.written ++ right.written
  | .intersect left right => left.written ++ right.written
  | .except left right => left.written ++ right.written
  | .limit source _ => source.written
  | .skip source _ => source.written
  | .unique source => source.written
  | .order source => source.written
  | .optional source extension => source.written ++ extension.written
  | .whereAll source clauses => source.written ++ writtenAll clauses
  | .filter source _ => source.written

def writtenAll : List Path → List String
  | [] => []
  | clause :: rest => clause.written ++ writtenAll rest

end

/-- A path that names nothing after predicates, nor does any of its extensions and clauses. Paths to
predicates may be any paths. -/
inductive Explicit : Path → Prop
  | all : Explicit .all
  | fixed {nodes} : Explicit (.fixed nodes)
  | here : Explicit .here
  | follow {source route via} (hs : Explicit source) : Explicit (.follow source route via)
  | predicates {source way} (hs : Explicit source) : Explicit (.predicates source way)
  | savePredicates {source way name} (hs : Explicit source) :
    Explicit (.savePredicates source way name)
  | save {source way via name} (hs : Explicit source) : Explicit (.save source way via name)
  | has {source way via targets} (hs : Explicit source) : Explicit (.has source way via targets)
  | isOneOf {source nodes} (hs : Explicit source) : Explicit (.isOneOf source nodes)
  | tag {source name} (hs : Explicit source) : Explicit (.tag source name)
  | back {source name} (hs : Explicit source) : Explicit (.back source name)
  | union {left right} (hl : Explicit left) (hr : Explicit right) : Explicit (.union left right)
  | intersect {left right} (hl : Explicit left) (hr : Explicit right) :
    Explicit (.intersect left right)
  | except {left right} (hl : Explicit left) (hr : Explicit right) : Explicit (.except left right)
  | limit {source count} (hs : Explicit source) : Explicit (.limit source count)
  | skip {source count} (hs : Explicit source) : Explicit (.skip source count)
  | unique {source} (hs : Explicit source) : Explicit (.unique source)
  | order {source} (hs : Explicit source) : Explicit (.order source)
  | optional {source extension} (hs : Explicit source) (he : Explicit extension) :
    Explicit (.optional source extension)
  | whereAll {source clauses} (hs : Explicit source)
    (hc : ∀ clause ∈ clauses, Explicit clause) : Explicit (.whereAll source clauses)
  | filter {source condition} (hs : Explicit source) : Explicit (.filter source condition)

theorem written_subset_writtenAll (clauses : List Path) (clause : Path) (h : clause ∈ clauses) :
    clause.written ⊆ writtenAll clauses := by
  induction clauses with
  | nil => cases h
  | cons first rest ih =>
    rw [writtenAll]
    rcases List.mem_cons.mp h with rfl | h
    · exact List.subset_append_left _ _
    · exact List.subset_append_of_subset_right _ (ih h)

end Path

namespace Binding

/-- Two matches in which every name outside of the given ones stands for the same, or for nothing
in both. -/
def AgreeOutside (names : List String) (b c : Binding) : Prop :=
  ∀ name ∉ names, c.tags[name]? = b.tags[name]?

/-- A match in which every name outside of the given ones stands for nothing, or for what it stands
for in the seed. -/
def Follows (names : List String) (seed : Option Binding) (b : Binding) : Prop :=
  ∀ name ∉ names, b.tags[name]? = none ∨ ∃ s ∈ seed, b.tags[name]? = s.tags[name]?

/-- A match with more names: it stands and began at the same places, no name has been lost, and only
the given ones may have come to stand for something else. -/
structure Enriched (names : List String) (b c : Binding) : Prop where
  node : c.node = b.node
  origin : c.origin = b.origin
  tags : b.AgreeOutside names c
  bound (name : String) : name ∈ b.tags → name ∈ c.tags

variable {names : List String} {seed : Option Binding}

theorem agreeOutside_map_moved (b : Binding) (nodes : List NodeId) :
    ∀ c ∈ nodes.map b.moved, b.AgreeOutside names c := by
  intro c hc
  obtain ⟨n, -, rfl⟩ := List.mem_map.mp hc
  exact fun _ _ => rfl

theorem agreeOutside_tagged (b : Binding) (name : String) (n : NodeId) (h : name ∈ names) :
    b.AgreeOutside names (b.tagged name n) := by
  intro other hother
  have hne : name ≠ other := fun heq => hother (heq ▸ h)
  simp [tagged, Std.ExtTreeMap.getElem?_insert, hne]

theorem agreeOutside_ite (b : Binding) (keep : Bool) :
    ∀ c ∈ (if keep then [b] else []), b.AgreeOutside names c := by
  intro c hc
  cases keep with
  | false => cases hc
  | true =>
    cases List.mem_singleton.mp hc
    exact fun _ _ => rfl

theorem follows_start (n : NodeId) : (start n).Follows names seed := by
  intro name _
  exact Or.inl (by simp [start])

theorem exists_of_follows (b : Binding) (name : String) (n : NodeId) (hb : b.Follows names seed)
    (hname : name ∉ names) (hn : b.tags[name]? = some n) :
    ∃ s ∈ seed, s.tags[name]? = some n := by
  rcases hb name hname with hnone | ⟨s, hs, hsame⟩
  · cases hn.symm.trans hnone
  · exact ⟨s, hs, hsame.symm.trans hn⟩

theorem enriched_refl (b : Binding) : b.Enriched names b :=
  ⟨rfl, rfl, fun _ _ => rfl, fun _ h => h⟩

theorem enriched_trans (b c d : Binding) (hbc : b.Enriched names c) (hcd : c.Enriched names d) :
    b.Enriched names d := by
  refine ⟨hcd.node.trans hbc.node, hcd.origin.trans hbc.origin, ?_, ?_⟩
  · exact fun name hname => (hcd.tags name hname).trans (hbc.tags name hname)
  · exact fun name hname => hcd.bound name (hbc.bound name hname)

/-- Taking over all tags of a match that followed this one only adds names. -/
theorem enriched_extend (b other : Binding) (h : other.Follows names (some b)) :
    b.Enriched names (b.extend other) := by
  refine ⟨rfl, rfl, ?_, ?_⟩
  · intro name hname
    rw [extend, Std.ExtTreeMap.getElem?_union]
    -- The other match wins, but what it has under this name it has from here.
    rcases h name hname with hnone | ⟨s, ⟨⟩, hsame⟩
    · rw [hnone, Option.none_or]
    · rw [hsame, Option.or_self]
  · intro name hname
    exact Std.ExtTreeMap.mem_union_iff.mpr (Or.inl hname)

end Binding

namespace Path

open Walking

/-- A path all of whose matches follow the seed outside of the given names. -/
def Confined (store : QuadStore) (names : List String) (p : Path) : Prop :=
  ∀ seed out, p.evaluate store seed = .ok out → ∀ b ∈ out, b.Follows names seed

variable {store : QuadStore} {names : List String}

theorem confined_mono {more : List String} (p : Path) (hp : p.Confined store names)
    (h : names ⊆ more) : p.Confined store more :=
  fun seed out hout b hb name hname => hp seed out hout b hb name fun hmem => hname (h hmem)

/-- A match that is there before a path goes on from its source: the seed, or a match of the
source. -/
inductive Precedes (store : QuadStore) (seed : Option Binding) (source : Path) : Binding → Prop
  | seed {b} (h : b ∈ seed) : Precedes store seed source b
  | source {found b} (h : source.evaluate store seed = .ok found) (hb : b ∈ found) :
    Precedes store seed source b

/-- A path that goes on from a source and leaves names alone: in its matches every name outside of
the given ones stands for what it stood for in some match before. -/
def Inherits (store : QuadStore) (names : List String) (p source : Path) : Prop :=
  ∀ seed out, p.evaluate store seed = .ok out → ∀ b ∈ out, ∀ name ∉ names, ∀ n,
    b.tags[name]? = some n → ∃ c, source.Precedes store seed c ∧ c.tags[name]? = some n

theorem confined_of_inherits (p source : Path) (hp : p.Inherits store names source)
    (hs : source.Confined store names) : p.Confined store names := by
  intro seed out hout b hb name hname
  cases hn : b.tags[name]? with
  | none => exact Or.inl rfl
  | some n =>
    -- What the name stands for comes from the seed, through a match of the source or at once.
    obtain ⟨c, hc, hcn⟩ := hp seed out hout b hb name hname n hn
    cases hc with
    | seed hseed => exact Or.inr ⟨c, hseed, hcn.symm⟩
    | source hfound hmem =>
      obtain ⟨s, hseed, hsn⟩ :=
        Binding.exists_of_follows c name n (hs seed _ hfound c hmem) hname hcn
      exact Or.inr ⟨s, hseed, hsn.symm⟩

theorem inherits_of_confined (p source : Path) (hp : p.Confined store names) :
    p.Inherits store names source := by
  intro seed out hout b hb name hname n hn
  obtain ⟨s, hseed, hsn⟩ := Binding.exists_of_follows b name n (hp seed out hout b hb) hname hn
  exact ⟨s, .seed hseed, hsn⟩

theorem inherits_refl (p : Path) : p.Inherits store names p :=
  fun _ _ hout b hb _ _ _ hn => ⟨b, .source hout hb, hn⟩

theorem inherits_trans (p q source : Path) (hp : p.Inherits store names q)
    (hq : q.Inherits store names source) : p.Inherits store names source := by
  intro seed out hout b hb name hname n hn
  obtain ⟨c, hc, hcn⟩ := hp seed out hout b hb name hname n hn
  cases hc with
  | seed hseed => exact ⟨c, .seed hseed, hcn⟩
  | source hfound hmem => exact hq seed _ hfound c hmem name hname n hcn

/-- Dropping, repeating or reordering matches names nothing. -/
theorem inherits_of_subset (p source : Path)
    (h : ∀ seed out, p.evaluate store seed = .ok out →
      ∃ found, source.evaluate store seed = .ok found ∧ out ⊆ found) :
    p.Inherits store names source := by
  intro seed out hout b hb name _ n hn
  obtain ⟨found, hfound, hsubset⟩ := h seed out hout
  exact ⟨b, .source hfound (hsubset hb), hn⟩

/-- A path that goes on from another one inherits its names if it leaves the names outside alone in
each single match. -/
theorem inherits_of_stage (p source : Path) (hp : p.pointwise? = some source)
    (h : ∀ stage, p.stage store = .ok stage → ∀ b out, stage b = .ok out →
      ∀ c ∈ out, b.AgreeOutside names c) : p.Inherits store names source := by
  intro seed out hout c hc name hname n hn
  obtain ⟨stage, hstage, found, hfound, hout⟩ :=
    (evaluate_eq_ok_of_pointwise store p source seed out hp).mp hout
  obtain ⟨b, hb, ys, hys, hmem⟩ := (mem_flatMapM stage found out hout c).mp hc
  have hagree := h stage hstage b ys hys c hmem name hname
  exact ⟨b, .source hfound hb, hagree.symm.trans hn⟩

theorem confined_starts (p : Path) (h : ∀ seed out, p.evaluate store seed = .ok out →
    ∃ nodes : List NodeId, out = nodes.map .start) : p.Confined store names := by
  intro seed out hout b hb
  obtain ⟨nodes, rfl⟩ := h seed out hout
  obtain ⟨n, -, rfl⟩ := List.mem_map.mp hb
  exact Binding.follows_start n

theorem confined_all : Path.all.Confined store names := by
  refine confined_starts _ fun seed out hout => ?_
  obtain ⟨nodes, -, ⟨⟩⟩ := (bind_eq_ok _ _ out).mp hout
  exact ⟨nodes, rfl⟩

theorem confined_fixed (nodes : List NodeId) : (fixed nodes).Confined store names := by
  refine confined_starts _ ?_
  rintro seed _ ⟨⟩
  exact ⟨nodes, rfl⟩

theorem confined_here : Path.here.Confined store names := by
  intro seed out hout b hb
  cases seed with
  | none => cases hout
  | some s =>
    cases hout
    cases List.mem_singleton.mp hb
    exact fun _ _ => Or.inr ⟨b, rfl, rfl⟩

theorem inherits_follow (source via : Path) (route : Route) :
    (follow source route via).Inherits store names source := by
  refine inherits_of_stage _ source rfl fun stage hstage b out hout => ?_
  obtain ⟨nodes, -, ⟨⟩⟩ := (bind_eq_ok _ _ stage).mp hstage
  obtain ⟨ends, -, ⟨⟩⟩ := (bind_eq_ok _ _ out).mp hout
  exact Binding.agreeOutside_map_moved b ends

theorem inherits_predicates (source : Path) (way : Way) :
    (predicates source way).Inherits store names source := by
  refine inherits_of_stage _ source rfl ?_
  rintro _ ⟨⟩ b out hout
  obtain ⟨found, -, ⟨⟩⟩ := (bind_eq_ok _ _ out).mp hout
  exact Binding.agreeOutside_map_moved b _

theorem inherits_savePredicates (source : Path) (way : Way) (name : String)
    (hname : name ∈ names) : (savePredicates source way name).Inherits store names source := by
  refine inherits_of_stage _ source rfl ?_
  rintro _ ⟨⟩ b out hout c hc
  obtain ⟨found, -, ⟨⟩⟩ := (bind_eq_ok _ _ out).mp hout
  obtain ⟨n, -, rfl⟩ := List.mem_map.mp hc
  exact Binding.agreeOutside_tagged b name n hname

theorem inherits_save (source via : Path) (way : Way) (name : String) (hname : name ∈ names) :
    (save source way via name).Inherits store names source := by
  refine inherits_of_stage _ source rfl fun stage hstage b out hout c hc => ?_
  obtain ⟨nodes, -, ⟨⟩⟩ := (bind_eq_ok _ _ stage).mp hstage
  obtain ⟨found, -, ⟨⟩⟩ := (bind_eq_ok _ _ out).mp hout
  obtain ⟨q, -, rfl⟩ := List.mem_map.mp hc
  exact Binding.agreeOutside_tagged b name (way.far q) hname

theorem inherits_has (source via : Path) (way : Way) (targets : Option (List NodeId)) :
    (has source way via targets).Inherits store names source := by
  refine inherits_of_stage _ source rfl fun stage hstage b out hout => ?_
  obtain ⟨nodes, -, ⟨⟩⟩ := (bind_eq_ok _ _ stage).mp hstage
  obtain ⟨found, -, ⟨⟩⟩ := (bind_eq_ok _ _ out).mp hout
  exact Binding.agreeOutside_ite b _

theorem inherits_isOneOf (source : Path) (nodes : List NodeId) :
    (isOneOf source nodes).Inherits store names source := by
  refine inherits_of_stage _ source rfl ?_
  rintro _ ⟨⟩ b _ ⟨⟩
  exact Binding.agreeOutside_ite b _

theorem inherits_filter (source : Path) (condition : Filter) :
    (filter source condition).Inherits store names source := by
  refine inherits_of_stage _ source rfl ?_
  rintro _ ⟨⟩ b out hout
  obtain ⟨t, -, ⟨⟩⟩ := (bind_eq_ok _ _ out).mp hout
  exact Binding.agreeOutside_ite b _

theorem inherits_tag (source : Path) (name : String) (hname : name ∈ names) :
    (tag source name).Inherits store names source := by
  refine inherits_of_stage _ source rfl ?_
  rintro _ ⟨⟩ b _ ⟨⟩ c hc
  cases List.mem_singleton.mp hc
  exact Binding.agreeOutside_tagged b name b.node hname

theorem inherits_back (source : Path) (name : Option String) :
    (back source name).Inherits store names source := by
  refine inherits_of_stage _ source rfl ?_
  rintro _ ⟨⟩ b _ ⟨⟩ c hc
  rw [Option.mem_toList] at hc
  -- By whichever name it goes back, the match is moved and names nothing.
  cases name with
  | none =>
    cases hc
    exact fun _ _ => rfl
  | some name =>
    obtain ⟨n, -, rfl⟩ := Option.map_eq_some_iff.mp hc
    exact fun _ _ => rfl

theorem inherits_union (left right : Path) (hr : right.Confined store names) :
    (union left right).Inherits store names left := by
  intro seed out hout b hb name hname n hn
  obtain ⟨ls, hls, hrest⟩ := (bind_eq_ok _ _ out).mp hout
  obtain ⟨rs, hrs, ⟨⟩⟩ := (bind_eq_ok _ _ out).mp hrest
  rcases List.mem_append.mp hb with hb | hb
  · exact ⟨b, .source hls hb, hn⟩
  · obtain ⟨s, hseed, hsn⟩ := Binding.exists_of_follows b name n (hr seed rs hrs b hb) hname hn
    exact ⟨s, .seed hseed, hsn⟩

theorem inherits_intersect (left right : Path) (hr : right.Confined store names) :
    (intersect left right).Inherits store names left := by
  intro seed out hout c hc name hname n hn
  obtain ⟨rs, hrs, hrest⟩ := (bind_eq_ok _ _ out).mp hout
  obtain ⟨ls, hls, ⟨⟩⟩ := (bind_eq_ok _ _ out).mp hrest
  obtain ⟨b, hb, habsorb⟩ := List.mem_filterMap.mp hc
  obtain ⟨other, hother, rfl⟩ := Option.map_eq_some_iff.mp habsorb
  rw [Binding.absorb, Std.ExtTreeMap.getElem?_union, Option.or_eq_some_iff] at hn
  rcases hn with hn | ⟨-, hn⟩
  · exact ⟨b, .source hls hb, hn⟩
  · -- A name that is taken over was not there, and it follows the seed in the other match.
    have hfollows := hr seed rs hrs other (List.mem_of_find?_eq_some hother)
    obtain ⟨s, hseed, hsn⟩ := Binding.exists_of_follows other name n hfollows hname hn
    exact ⟨s, .seed hseed, hsn⟩

theorem inherits_except (left right : Path) :
    (Path.except left right).Inherits store names left := by
  refine inherits_of_subset _ left fun seed out hout => ?_
  obtain ⟨rs, -, hrest⟩ := (bind_eq_ok _ _ out).mp hout
  obtain ⟨ls, hls, ⟨⟩⟩ := (bind_eq_ok _ _ out).mp hrest
  exact ⟨ls, hls, List.filter_subset_self _⟩

theorem inherits_limit (source : Path) (count : Nat) :
    (limit source count).Inherits store names source := by
  refine inherits_of_subset _ source fun seed out hout => ?_
  obtain ⟨found, hfound, ⟨⟩⟩ := (bind_eq_ok _ _ out).mp hout
  exact ⟨found, hfound, List.take_subset count found⟩

theorem inherits_skip (source : Path) (count : Nat) :
    (skip source count).Inherits store names source := by
  refine inherits_of_subset _ source fun seed out hout => ?_
  obtain ⟨found, hfound, ⟨⟩⟩ := (bind_eq_ok _ _ out).mp hout
  exact ⟨found, hfound, List.drop_subset count found⟩

theorem inherits_unique (source : Path) : (unique source).Inherits store names source := by
  refine inherits_of_subset _ source fun seed out hout => ?_
  obtain ⟨found, hfound, ⟨⟩⟩ := (bind_eq_ok _ _ out).mp hout
  exact ⟨found, hfound, (firsts_sublist found).subset⟩

theorem inherits_order (source : Path) : (order source).Inherits store names source := by
  refine inherits_of_subset _ source fun seed out hout => ?_
  obtain ⟨found, hfound, hsorted⟩ := (bind_eq_ok _ _ out).mp hout
  exact ⟨found, hfound, (sorted_perm store found out hsorted).subset⟩

/-- The first match of a confined extension, if there is one, adds names to the match before it. -/
theorem enriched_of_extension (extension : Path) (he : extension.Confined store names)
    (b : Binding) (found : List Binding) (h : extension.evaluate store (some b) = .ok found) :
    b.Enriched names (match found.head? with | some other => b.extend other | none => b) := by
  cases found with
  | nil => exact Binding.enriched_refl b
  | cons other rest =>
    exact Binding.enriched_extend b other (he (some b) _ h other List.mem_cons_self)

theorem inherits_optional (source extension : Path) (he : extension.Confined store names) :
    (optional source extension).Inherits store names source := by
  refine inherits_of_stage _ source rfl ?_
  rintro _ ⟨⟩ b out hout c hc
  obtain ⟨found, hfound, ⟨⟩⟩ := (bind_eq_ok _ _ out).mp hout
  cases List.mem_singleton.mp hc
  exact (enriched_of_extension extension he b found hfound).tags

/-- One clause makes matches of those before it that only add names to them. -/
theorem enriched_of_clause (clause : Path) (found next : List Binding)
    (hc : clause.Confined store names)
    (h : (found.flatMapM fun b => do return (← clause.evaluate store (some b)).map b.extend) =
      .ok next) : ∀ c ∈ next, ∃ b ∈ found, b.Enriched names c := by
  intro c hmem
  obtain ⟨b, hb, cs, hcs, hmem⟩ := (mem_flatMapM _ found next h c).mp hmem
  obtain ⟨others, hothers, ⟨⟩⟩ := (bind_eq_ok _ _ cs).mp hcs
  obtain ⟨other, hother, rfl⟩ := List.mem_map.mp hmem
  exact ⟨b, hb, Binding.enriched_extend b other (hc (some b) others hothers other hother)⟩

/-- Confined clauses, one after the other, only add names to the matches they are joined to. -/
theorem join_enriched (clauses : List Path) (found out : List Binding)
    (hc : ∀ clause ∈ clauses, clause.Confined store names)
    (h : join store clauses found = .ok out) :
    ∀ c ∈ out, ∃ b ∈ found, b.Enriched names c := by
  induction clauses generalizing found with
  | nil =>
    cases h
    exact fun c hmem => ⟨c, hmem, Binding.enriched_refl c⟩
  | cons clause rest ih =>
    obtain ⟨next, hnext, hout⟩ := (bind_eq_ok _ _ out).mp h
    intro d hd
    -- A match at the end comes from one in between, and that one from a match before the clause.
    obtain ⟨c, hmem, hcd⟩ :=
      ih next (fun other hother => hc other (List.mem_cons_of_mem clause hother)) hout d hd
    obtain ⟨b, hb, hbc⟩ :=
      enriched_of_clause clause found next (hc clause List.mem_cons_self) hnext c hmem
    exact ⟨b, hb, Binding.enriched_trans b c d hbc hcd⟩

theorem enriched_of_join (clauses : List Path) (b : Binding) (out : List Binding)
    (hc : ∀ clause ∈ clauses, clause.Confined store names)
    (h : join store clauses [b] = .ok out) : ∀ c ∈ out, b.Enriched names c := by
  intro c hmem
  obtain ⟨b', hb', henriched⟩ := join_enriched clauses [b] out hc h c hmem
  cases List.mem_singleton.mp hb'
  exact henriched

theorem inherits_whereAll (source : Path) (clauses : List Path)
    (hc : ∀ clause ∈ clauses, clause.Confined store names) :
    (whereAll source clauses).Inherits store names source := by
  refine inherits_of_stage _ source rfl ?_
  rintro _ ⟨⟩ b out hout c hmem
  exact (enriched_of_join clauses b out hc hout c hmem).tags

/-- A path without names taken from predicates changes no other names than those written in it. -/
theorem confined_of_explicit (p : Path) (hp : p.Explicit) (hw : p.written ⊆ names) :
    p.Confined store names := by
  -- By induction on the path: what its parts write is among what it writes itself.
  induction hp with
  | all => exact confined_all
  | fixed => exact confined_fixed _
  | here => exact confined_here
  | follow _ ih => exact confined_of_inherits _ _ (inherits_follow _ _ _) (ih hw)
  | predicates _ ih => exact confined_of_inherits _ _ (inherits_predicates _ _) (ih hw)
  | savePredicates _ ih =>
    obtain ⟨hname, hsource⟩ := List.cons_subset.mp hw
    exact confined_of_inherits _ _ (inherits_savePredicates _ _ _ hname) (ih hsource)
  | save _ ih =>
    obtain ⟨hname, hsource⟩ := List.cons_subset.mp hw
    exact confined_of_inherits _ _ (inherits_save _ _ _ _ hname) (ih hsource)
  | has _ ih => exact confined_of_inherits _ _ (inherits_has _ _ _ _) (ih hw)
  | isOneOf _ ih => exact confined_of_inherits _ _ (inherits_isOneOf _ _) (ih hw)
  | tag _ ih =>
    obtain ⟨hname, hsource⟩ := List.cons_subset.mp hw
    exact confined_of_inherits _ _ (inherits_tag _ _ hname) (ih hsource)
  | back _ ih => exact confined_of_inherits _ _ (inherits_back _ _) (ih hw)
  | union _ _ ihl ihr =>
    obtain ⟨hleft, hright⟩ := List.append_subset.mp hw
    exact confined_of_inherits _ _ (inherits_union _ _ (ihr hright)) (ihl hleft)
  | intersect _ _ ihl ihr =>
    obtain ⟨hleft, hright⟩ := List.append_subset.mp hw
    exact confined_of_inherits _ _ (inherits_intersect _ _ (ihr hright)) (ihl hleft)
  | except _ _ ihl _ =>
    obtain ⟨hleft, -⟩ := List.append_subset.mp hw
    exact confined_of_inherits _ _ (inherits_except _ _) (ihl hleft)
  | limit _ ih => exact confined_of_inherits _ _ (inherits_limit _ _) (ih hw)
  | skip _ ih => exact confined_of_inherits _ _ (inherits_skip _ _) (ih hw)
  | unique _ ih => exact confined_of_inherits _ _ (inherits_unique _) (ih hw)
  | order _ ih => exact confined_of_inherits _ _ (inherits_order _) (ih hw)
  | optional _ _ ihs ihe =>
    obtain ⟨hsource, hextension⟩ := List.append_subset.mp hw
    exact confined_of_inherits _ _ (inherits_optional _ _ (ihe hextension)) (ihs hsource)
  | whereAll _ _ ihs ihc =>
    obtain ⟨hsource, hclauses⟩ := List.append_subset.mp hw
    refine confined_of_inherits _ _ (inherits_whereAll _ _ fun clause hmem => ?_) (ihs hsource)
    exact ihc clause hmem (List.Subset.trans (written_subset_writtenAll _ clause hmem) hclauses)
  | filter _ ih => exact confined_of_inherits _ _ (inherits_filter _ _) (ih hw)

/-- An optional extension makes one match of every match before it. -/
theorem forall₂_enriched_optional (source extension : Path) (seed : Option Binding)
    (out : List Binding) (he : extension.Confined store names)
    (h : (optional source extension).evaluate store seed = .ok out) :
    ∃ bs, source.evaluate store seed = .ok bs ∧
      List.Forall₂ (Binding.Enriched names) bs out := by
  obtain ⟨bs, hbs, hout⟩ := (bind_eq_ok _ _ out).mp h
  refine ⟨bs, hbs, ((mapM_eq_ok _ bs out).mp hout).imp fun b c hc => ?_⟩
  obtain ⟨found, hfound, ⟨⟩⟩ := (bind_eq_ok _ _ c).mp hc
  exact enriched_of_extension extension he b found hfound

theorem exists_optional_eq_ok (source extension : Path) (seed : Option Binding)
    (bs : List Binding) (hbs : source.evaluate store seed = .ok bs)
    (h : ∀ b ∈ bs, ∃ found, extension.evaluate store (some b) = .ok found) :
    ∃ out, (optional source extension).evaluate store seed = .ok out := by
  simp only [evaluate, hbs]
  refine exists_mapM_eq_ok _ bs fun b hb => ?_
  obtain ⟨found, hfound⟩ := h b hb
  exact ⟨_, by rw [hfound]; rfl⟩

/-- Clauses make a block of matches of every match before them. -/
theorem forall₂_enriched_whereAll (source : Path) (clauses : List Path) (seed : Option Binding)
    (out : List Binding) (hc : ∀ clause ∈ clauses, clause.Confined store names)
    (h : (whereAll source clauses).evaluate store seed = .ok out) :
    ∃ bs blocks, source.evaluate store seed = .ok bs ∧
      List.Forall₂ (fun b block => ∀ c ∈ block, b.Enriched names c) bs blocks ∧
      out = blocks.flatten := by
  obtain ⟨bs, hbs, hout⟩ := (bind_eq_ok _ _ out).mp h
  obtain ⟨blocks, hblocks, rfl⟩ := (flatMapM_eq_ok _ bs out).mp hout
  refine ⟨bs, blocks, hbs, ((mapM_eq_ok _ bs blocks).mp hblocks).imp fun b block hblock => ?_, rfl⟩
  exact enriched_of_join clauses b block hc hblock

/-- Clauses that can be walked from whatever is made of a match can be walked one after another. -/
theorem exists_join_eq_ok (clauses : List Path) (b : Binding) (found : List Binding)
    (hc : ∀ clause ∈ clauses, clause.Confined store names)
    (hok : ∀ clause ∈ clauses, ∀ c, b.Enriched names c →
      ∃ others, clause.evaluate store (some c) = .ok others)
    (hf : ∀ c ∈ found, b.Enriched names c) : ∃ out, join store clauses found = .ok out := by
  induction clauses generalizing found with
  | nil => exact ⟨found, rfl⟩
  | cons clause rest ih =>
    obtain ⟨next, hnext⟩ := exists_flatMapM_eq_ok
      (fun c => do return (← clause.evaluate store (some c)).map c.extend) found fun c hmem => by
        obtain ⟨others, hothers⟩ := hok clause List.mem_cons_self c (hf c hmem)
        exact ⟨others.map c.extend, by rw [hothers]; rfl⟩
    rw [join, hnext]
    -- What the clause makes of the matches is still made of `b`, so the others can be walked too.
    refine ih next (fun other hother => hc other (List.mem_cons_of_mem clause hother))
      (fun other hother => hok other (List.mem_cons_of_mem clause hother)) fun d hd => ?_
    obtain ⟨c, hmem, hcd⟩ :=
      enriched_of_clause clause found next (hc clause List.mem_cons_self) hnext d hd
    exact Binding.enriched_trans b c d (hf c hmem) hcd

theorem exists_whereAll_eq_ok (source : Path) (clauses : List Path) (seed : Option Binding)
    (bs : List Binding) (hbs : source.evaluate store seed = .ok bs)
    (hc : ∀ clause ∈ clauses, clause.Confined store names)
    (hok : ∀ b ∈ bs, ∀ clause ∈ clauses, ∀ c, b.Enriched names c →
      ∃ others, clause.evaluate store (some c) = .ok others) :
    ∃ out, (whereAll source clauses).evaluate store seed = .ok out := by
  simp only [evaluate, hbs]
  refine exists_flatMapM_eq_ok _ bs fun b hb => exists_join_eq_ok clauses b [b] hc (hok b hb) ?_
  intro c hmem
  cases List.mem_singleton.mp hmem
  exact Binding.enriched_refl b

/-- Names survive what is walked from inside. A path changes no other names than those written in
it. So an optional extension makes one match of every match before it, and clauses a block of
matches, in order and at the same places, in which only the names written in them may have come to
stand for something else and no name is lost. Both can be walked where their parts can. -/
theorem evaluate_follows (store : QuadStore) (seed : Option Binding) :
    (∀ p out, Explicit p → p.evaluate store seed = .ok out →
      ∀ b ∈ out, b.Follows p.written seed) ∧
    (∀ source extension out, Explicit extension →
      (optional source extension).evaluate store seed = .ok out →
      ∃ bs, source.evaluate store seed = .ok bs ∧
        List.Forall₂ (Binding.Enriched extension.written) bs out) ∧
    (∀ source clauses out, (∀ clause ∈ clauses, Explicit clause) →
      (whereAll source clauses).evaluate store seed = .ok out →
      ∃ bs blocks, source.evaluate store seed = .ok bs ∧
        List.Forall₂ (fun b block => ∀ c ∈ block, b.Enriched (writtenAll clauses) c) bs blocks ∧
        out = blocks.flatten) ∧
    (∀ source extension bs, source.evaluate store seed = .ok bs →
      (∀ b ∈ bs, ∃ found, extension.evaluate store (some b) = .ok found) →
      ∃ out, (optional source extension).evaluate store seed = .ok out) ∧
    (∀ source clauses bs, (∀ clause ∈ clauses, Explicit clause) →
      source.evaluate store seed = .ok bs →
      (∀ b ∈ bs, ∀ clause ∈ clauses, ∀ c, b.Enriched (writtenAll clauses) c →
        ∃ found, clause.evaluate store (some c) = .ok found) →
      ∃ out, (whereAll source clauses).evaluate store seed = .ok out) := by
  have hconfined (clauses : List Path) (hc : ∀ clause ∈ clauses, Explicit clause) :
      ∀ clause ∈ clauses, clause.Confined store (writtenAll clauses) := by
    intro clause hmem
    exact confined_of_explicit clause (hc clause hmem)
      (written_subset_writtenAll clauses clause hmem)
  refine ⟨?_, ?_, ?_, ?_, ?_⟩
  · intro p out hp hout
    exact confined_of_explicit p hp (List.Subset.refl _) seed out hout
  · intro source extension out he hout
    exact forall₂_enriched_optional source extension seed out
      (confined_of_explicit extension he (List.Subset.refl _)) hout
  · intro source clauses out hc hout
    exact forall₂_enriched_whereAll source clauses seed out (hconfined clauses hc) hout
  · intro source extension bs hbs hall
    exact exists_optional_eq_ok source extension seed bs hbs hall
  · intro source clauses bs hc hbs hok
    exact exists_whereAll_eq_ok source clauses seed bs hbs (hconfined clauses hc) hok

/-- Someone who likes two people, walked from a match that has named a friend and a topic before.
The friend is named anew, and the topic is kept. -/
theorem evaluate_follows_new_friend :
    let store := (Graph.ofQuads [.ofIris "alice" "likes" "bob" "",
      .ofIris "alice" "likes" "dan" ""]).toStore
    let s : Binding := ⟨⟨0⟩, ⟨3⟩, ((∅ : Tags).insert "topic" ⟨1⟩).insert "friend" ⟨3⟩⟩
    let friend : Path := .tag (.follow .here (.one .forward) (.fixed [⟨1⟩])) "friend"
    let source : Path := .tag .here "who"
    let who : Binding := s.tagged "who" ⟨0⟩
    let p : Path := .optional source friend
    let q : Path := .whereAll source [friend]
    let toBob : Binding := who.tagged "friend" ⟨2⟩
    let toDan : Binding := who.tagged "friend" ⟨3⟩
    (p.evaluate store (some s) = .ok [toBob] ∧ toBob.Follows p.written (some s) ∧
      List.Forall₂ (Binding.Enriched friend.written) [who] [toBob]) ∧
    (q.evaluate store (some s) = .ok [toBob, toDan] ∧
      ∃ blocks, List.Forall₂ (fun b block => ∀ c ∈ block, b.Enriched (writtenAll [friend]) c)
        [who] blocks ∧ [toBob, toDan] = blocks.flatten) ∧
    (∃ out, p.evaluate store (some s) = .ok out) ∧
    ∃ out, q.evaluate store (some s) = .ok out := by
  intro store s friend source who p q toBob toDan
  have hfriend : friend.Explicit := .tag (.follow .here)
  have hclauses : ∀ clause ∈ [friend], Explicit clause := List.forall_mem_singleton.mpr hfriend
  have hsource : source.evaluate store (some s) = .ok [who] := by decide +kernel
  have hp : p.evaluate store (some s) = .ok [toBob] := by decide +kernel
  have hq : q.evaluate store (some s) = .ok [toBob, toDan] := by decide +kernel
  obtain ⟨hfollows, hoptional, hwhere, hcan, hcanAll⟩ := evaluate_follows store (some s)
  refine ⟨⟨hp, ?_, ?_⟩, ⟨hq, ?_⟩, ?_, ?_⟩
  · exact hfollows p [toBob] (.optional (.tag .here) hfriend) hp toBob List.mem_cons_self
  · obtain ⟨bs, hbs, henriched⟩ := hoptional source friend [toBob] hfriend hp
    cases hsource.symm.trans hbs
    exact henriched
  · obtain ⟨bs, blocks, hbs, hblocks⟩ := hwhere source [friend] _ hclauses hq
    cases hsource.symm.trans hbs
    exact ⟨blocks, hblocks⟩
  · exact hcan source friend [who] hsource fun b _ => ⟨_, rfl⟩
  · refine hcanAll source [friend] [who] hclauses hsource fun b _ clause hmem c _ => ?_
    cases List.mem_singleton.mp hmem
    exact ⟨_, rfl⟩

end Path

end QuadGraph
