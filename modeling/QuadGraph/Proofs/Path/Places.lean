import QuadGraph.Proofs.Path.Combinations
import QuadGraph.Proofs.Path.Relative

/-! Where paths lead. The names in a match are carried along, and unless a path goes back to one of
them they have no part in where it leads: not in what is found, dropped or kept, and not in the
order. So a path walked from two matches at the same places leads to the same places. -/
namespace QuadGraph

open Outcome

/-- Two matches that stand at the same node and began at the same one, whatever they have named. -/
structure Binding.SamePlaces (b c : Binding) : Prop where
  node : b.node = c.node
  origin : b.origin = c.origin

namespace Path

/-- The paths that a path is made of, besides those to predicates: the one it goes on from, the
sides of a set operation, an extension and clauses. -/
def parts : Path → List Path
  | .all => []
  | .fixed _ => []
  | .here => []
  | .follow source _ _ => [source]
  | .predicates source _ => [source]
  | .savePredicates source _ _ => [source]
  | .save source _ _ _ => [source]
  | .saveAll source _ => [source]
  | .has source _ _ _ => [source]
  | .isOneOf source _ => [source]
  | .tag source _ => [source]
  | .back source _ => [source]
  | .union left right => [left, right]
  | .intersect left right => [left, right]
  | .except left right => [left, right]
  | .limit source _ => [source]
  | .skip source _ => [source]
  | .unique source => [source]
  | .order source => [source]
  | .optional source extension => [source, extension]
  | .whereAll source clauses => source :: clauses
  | .filter source _ => [source]

/-- A path that goes back to no name, nor does any path that it is made of. Paths to predicates may
be any paths. -/
inductive Oblivious : Path → Prop
  | intro (p : Path) (hp : ∀ source name, p ≠ .back source (some name))
    (hparts : ∀ q ∈ p.parts, Oblivious q) : Oblivious p

end Path

namespace Binding

theorem samePlaces_refl (b : Binding) : b.SamePlaces b :=
  ⟨rfl, rfl⟩

theorem samePlaces_map {α : Type} (f g : α → Binding) (xs : List α)
    (h : ∀ x, (f x).SamePlaces (g x)) : List.Forall₂ SamePlaces (xs.map f) (xs.map g) := by
  rw [List.forall₂_map_left_iff, List.forall₂_map_right_iff, List.forall₂_same]
  exact fun x _ => h x

variable {b c : Binding}

theorem samePlaces_moved (h : b.SamePlaces c) (n : NodeId) : (b.moved n).SamePlaces (c.moved n) :=
  ⟨rfl, h.origin⟩

theorem samePlaces_tagged (h : b.SamePlaces c) (name : String) (n : NodeId) :
    (b.tagged name n).SamePlaces (c.tagged name n) :=
  ⟨h.node, h.origin⟩

theorem samePlaces_absorb (h : b.SamePlaces c) (other other' : Binding) :
    (b.absorb other).SamePlaces (c.absorb other') :=
  ⟨h.node, h.origin⟩

theorem samePlaces_extend (h : b.SamePlaces c) (other other' : Binding) :
    (b.extend other).SamePlaces (c.extend other') :=
  ⟨h.node, h.origin⟩

theorem samePlaces_ite (h : b.SamePlaces c) (keep : Bool) :
    List.Forall₂ SamePlaces (if keep then [b] else []) (if keep then [c] else []) := by
  cases keep with
  | false => exact .nil
  | true => exact .cons h .nil

/-- Matches at the same places, one by one, come to the same nodes. -/
theorem exists_node_iff {bs cs : List Binding} (h : List.Forall₂ SamePlaces bs cs) (n : NodeId) :
    (∃ b ∈ bs, b.node = n) ↔ ∃ c ∈ cs, c.node = n := by
  induction h with
  | nil => simp
  | cons hbc _ ih => simp [ih, hbc.node]

end Binding

namespace Walking

open Binding

variable {store : QuadStore} {bs cs : List Binding}

/-- Naming the ends of quads in all combinations does not look at the names that are there. -/
theorem samePlaces_spread (groups : List (String × List NodeId))
    (h : List.Forall₂ SamePlaces bs cs) :
    List.Forall₂ SamePlaces (spread groups bs) (spread groups cs) := by
  induction groups generalizing bs cs with
  | nil => exact h
  | cons group rest ih =>
    apply ih
    exact List.rel_flatMap h fun b c hbc => samePlaces_map _ _ group.2 (samePlaces_tagged hbc _)

theorem saveAll_alike (way : Way) {b c : Binding} (h : b.SamePlaces c) :
    Alike (List.Forall₂ SamePlaces) (saveAll store way b) (saveAll store way c) := by
  rw [saveAll_eq, saveAll_eq, h.node]
  refine alike_bind_same _ _ _ fun found => alike_bind_same _ _ _ fun terms => .ok ?_
  split
  · exact .nil
  · exact samePlaces_spread _ (.cons h .nil)

/-- The first matches at every node are picked by their nodes. -/
theorem samePlaces_firsts (h : List.Forall₂ SamePlaces bs cs) :
    List.Forall₂ SamePlaces (firsts bs) (firsts cs) := by
  induction hn : bs.length using Nat.strongRecOn generalizing bs cs with
  | _ n ih =>
    cases h with
    | nil => exact .nil
    | @cons b c rest rest' hbc hrest =>
      rw [firsts_cons, firsts_cons, hbc.node]
      have hle := List.length_filter_le (fun d : Binding => (d.node == c.node) = false) rest
      have hlt : (rest.filter fun d => (d.node == c.node) = false).length < n := by
        simp only [List.length_cons] at hn
        omega
      refine .cons hbc (ih _ hlt (List.rel_filter ?_ hrest) rfl)
      intro d d' hd
      simp only [hd.node]

/-- Sorting compares the terms of nodes, and the order of equal ones stays. -/
theorem sorted_alike (h : List.Forall₂ SamePlaces bs cs) :
    Alike (List.Forall₂ SamePlaces) (sorted store bs) (sorted store cs) := by
  -- The keys with the places are the same, so it is the same list that is sorted.
  let places (keyed : Term × Binding) : Term × NodeId × NodeId :=
    (keyed.1, keyed.2.node, keyed.2.origin)
  have hkeyed : Alike (List.Forall₂ fun x y => places x = places y)
      (bs.flatMapM fun b => do return [(← store.term b.node, b)])
      (cs.flatMapM fun c => do return [(← store.term c.node, c)]) := by
    refine alike_flatMapM _ _ bs cs h fun b c hbc => ?_
    rw [hbc.node]
    refine alike_bind_same _ _ _ fun t => .ok (.cons ?_ .nil)
    exact congrArg (Prod.mk t) (Prod.ext hbc.node hbc.origin)
  unfold sorted
  rw [mapM_eq_flatMapM, mapM_eq_flatMapM]
  refine alike_bind _ _ _ _ hkeyed fun xs ys hxy => .ok ?_
  let le (a b : Term × NodeId × NodeId) : Bool := (a.1.compareCanonical b.1).isLE
  have hsame : xs.map places = ys.map places := by
    rwa [← List.forall₂_eq_eq_eq, List.forall₂_map_left_iff, List.forall₂_map_right_iff]
  have hsorted (keyed : List (Term × Binding)) :
      (keyed.mergeSort fun a b => (a.1.compareCanonical b.1).isLE).map places =
        (keyed.map places).mergeSort le :=
    List.map_mergeSort fun _ _ _ _ => rfl
  have heq := (hsorted xs).trans ((congrArg (List.mergeSort · le) hsame).trans (hsorted ys).symm)
  rw [← List.forall₂_eq_eq_eq, List.forall₂_map_left_iff, List.forall₂_map_right_iff] at heq
  rw [List.forall₂_map_left_iff, List.forall₂_map_right_iff]
  exact heq.imp fun x y hxy => ⟨congrArg (·.2.1) hxy, congrArg (·.2.2) hxy⟩

end Walking

namespace Path

open Binding Walking

/-- A path that leads from the same places to the same places, or fails in the same way. -/
def Indifferent (store : QuadStore) (p : Path) : Prop :=
  ∀ s s' : Binding, s.SamePlaces s' →
    Alike (List.Forall₂ SamePlaces) (p.evaluate store (some s)) (p.evaluate store (some s'))

variable {store : QuadStore}

theorem indifferent_of_stage (p source : Path) (hs : source.Indifferent store)
    (hp : p.pointwise? = some source)
    (h : ∀ stage, p.stage store = .ok stage → ∀ b c : Binding, b.SamePlaces c →
      Alike (List.Forall₂ SamePlaces) (stage b) (stage c)) : p.Indifferent store := by
  intro s s' hss
  rw [evaluate_eq_stage store p source _ hp, evaluate_eq_stage store p source _ hp]
  -- What the stage is does not depend on the seed, nor does whether there is one.
  cases hstage : p.stage store with
  | error e => exact .error e
  | ok stage =>
    exact alike_bind (source.evaluate store (some s)) (source.evaluate store (some s')) _ _
      (hs s s' hss) fun bs cs hbc => alike_flatMapM stage stage bs cs hbc (h stage hstage)

theorem indifferent_follow (source via : Path) (route : Route) (hs : source.Indifferent store) :
    (follow source route via).Indifferent store := by
  refine indifferent_of_stage _ source hs rfl fun stage hstage b c hbc => ?_
  obtain ⟨nodes, -, ⟨⟩⟩ := (bind_eq_ok _ _ stage).mp hstage
  simp only [hbc.node]
  exact alike_bind_same _ _ _ fun ends => .ok (samePlaces_map _ _ ends (samePlaces_moved hbc))

theorem indifferent_predicates (source : Path) (way : Way) (hs : source.Indifferent store) :
    (predicates source way).Indifferent store := by
  refine indifferent_of_stage _ source hs rfl ?_
  rintro _ ⟨⟩ b c hbc
  simp only [hbc.node]
  exact alike_bind_same _ _ _ fun found => .ok (samePlaces_map _ _ _ (samePlaces_moved hbc))

theorem indifferent_savePredicates (source : Path) (way : Way) (name : String)
    (hs : source.Indifferent store) : (savePredicates source way name).Indifferent store := by
  refine indifferent_of_stage _ source hs rfl ?_
  rintro _ ⟨⟩ b c hbc
  simp only [hbc.node]
  exact alike_bind_same _ _ _ fun found => .ok (samePlaces_map _ _ _ (samePlaces_tagged hbc name))

theorem indifferent_save (source via : Path) (way : Way) (name : String)
    (hs : source.Indifferent store) : (save source way via name).Indifferent store := by
  refine indifferent_of_stage _ source hs rfl fun stage hstage b c hbc => ?_
  obtain ⟨nodes, -, ⟨⟩⟩ := (bind_eq_ok _ _ stage).mp hstage
  simp only [hbc.node]
  exact alike_bind_same _ _ _ fun found =>
    .ok (samePlaces_map _ _ found fun q => samePlaces_tagged hbc name (way.far q))

theorem indifferent_saveAll (source : Path) (way : Way) (hs : source.Indifferent store) :
    (saveAll source way).Indifferent store := by
  refine indifferent_of_stage _ source hs rfl ?_
  rintro _ ⟨⟩ b c hbc
  exact saveAll_alike way hbc

theorem indifferent_has (source via : Path) (way : Way) (targets : Option (List NodeId))
    (hs : source.Indifferent store) : (has source way via targets).Indifferent store := by
  refine indifferent_of_stage _ source hs rfl fun stage hstage b c hbc => ?_
  obtain ⟨nodes, -, ⟨⟩⟩ := (bind_eq_ok _ _ stage).mp hstage
  simp only [hbc.node]
  exact alike_bind_same _ _ _ fun found => .ok (samePlaces_ite hbc _)

theorem indifferent_isOneOf (source : Path) (nodes : List NodeId)
    (hs : source.Indifferent store) : (isOneOf source nodes).Indifferent store := by
  refine indifferent_of_stage _ source hs rfl ?_
  rintro _ ⟨⟩ b c hbc
  simp only [hbc.node]
  exact .ok (samePlaces_ite hbc _)

theorem indifferent_filter (source : Path) (condition : Filter) (hs : source.Indifferent store) :
    (filter source condition).Indifferent store := by
  refine indifferent_of_stage _ source hs rfl ?_
  rintro _ ⟨⟩ b c hbc
  simp only [hbc.node]
  exact alike_bind_same _ _ _ fun t => .ok (samePlaces_ite hbc _)

theorem indifferent_tag (source : Path) (name : String) (hs : source.Indifferent store) :
    (tag source name).Indifferent store := by
  refine indifferent_of_stage _ source hs rfl ?_
  rintro _ ⟨⟩ b c hbc
  simp only [hbc.node]
  exact .ok (.cons (samePlaces_tagged hbc name _) .nil)

/-- Where a path began is one of the places, so going back there is no matter of names. -/
theorem indifferent_back (source : Path) (hs : source.Indifferent store) :
    (back source none).Indifferent store := by
  refine indifferent_of_stage _ source hs rfl ?_
  rintro _ ⟨⟩ b c hbc
  simp only [hbc.origin]
  exact .ok (.cons (samePlaces_moved hbc _) .nil)

theorem indifferent_optional (source extension : Path) (hs : source.Indifferent store)
    (he : extension.Indifferent store) : (optional source extension).Indifferent store := by
  refine indifferent_of_stage _ source hs rfl ?_
  rintro _ ⟨⟩ b c hbc
  refine alike_bind _ _ _ _ (he b c hbc) fun found found' hfound => .ok (.cons ?_ .nil)
  -- Either both extensions have a first match, or none has one.
  cases hfound with
  | nil => exact hbc
  | cons => exact samePlaces_extend hbc _ _

theorem join_alike (clauses : List Path) (bs cs : List Binding)
    (hc : ∀ clause ∈ clauses, clause.Indifferent store) (h : List.Forall₂ SamePlaces bs cs) :
    Alike (List.Forall₂ SamePlaces) (join store clauses bs) (join store clauses cs) := by
  induction clauses generalizing bs cs with
  | nil => exact .ok h
  | cons clause rest ih =>
    rw [join, join]
    refine alike_bind (R := List.Forall₂ SamePlaces) _ _ _ _ ?_ fun next next' hnext =>
      ih next next' (fun other hother => hc other (List.mem_cons_of_mem clause hother)) hnext
    refine alike_flatMapM _ _ bs cs h fun b c hbc => ?_
    refine alike_bind _ _ _ _ (hc clause List.mem_cons_self b c hbc) fun found found' hfound => ?_
    exact .ok (List.rel_map (fun other other' _ => samePlaces_extend hbc other other') hfound)

theorem indifferent_whereAll (source : Path) (clauses : List Path) (hs : source.Indifferent store)
    (hc : ∀ clause ∈ clauses, clause.Indifferent store) :
    (whereAll source clauses).Indifferent store := by
  refine indifferent_of_stage _ source hs rfl ?_
  rintro _ ⟨⟩ b c hbc
  exact join_alike clauses [b] [c] hc (.cons hbc .nil)

theorem indifferent_union (left right : Path) (hl : left.Indifferent store)
    (hr : right.Indifferent store) : (union left right).Indifferent store := by
  intro s s' hss
  refine alike_bind _ _ _ _ (hl s s' hss) fun ls ls' hls => ?_
  refine alike_bind _ _ _ _ (hr s s' hss) fun rs rs' hrs => ?_
  exact .ok (List.rel_append hls hrs)

theorem indifferent_intersect (left right : Path) (hl : left.Indifferent store)
    (hr : right.Indifferent store) : (intersect left right).Indifferent store := by
  intro s s' hss
  refine alike_bind _ _ _ _ (hr s s' hss) fun rs rs' hrs => ?_
  refine alike_bind _ _ _ _ (hl s s' hss) fun ls ls' hls => .ok ?_
  refine List.rel_filterMap (fun b c hbc => ?_) hls
  -- A match is kept if there is one at its node on the right, whatever that one has named.
  have hfind : (rs.find? (·.node = b.node)).isSome ↔ (rs'.find? (·.node = c.node)).isSome := by
    simp only [List.find?_isSome, decide_eq_true_iff, hbc.node, exists_node_iff hrs]
  cases hother : rs.find? (·.node = b.node) with
  | none =>
    rw [hother] at hfind
    rw [Option.not_isSome_iff_eq_none.mp (hfind.not.mp Bool.false_ne_true)]
    exact .none
  | some other =>
    rw [hother] at hfind
    obtain ⟨other', hother'⟩ := Option.isSome_iff_exists.mp (hfind.mp rfl)
    rw [hother']
    exact .some (samePlaces_absorb hbc other other')

theorem indifferent_except (left right : Path) (hl : left.Indifferent store)
    (hr : right.Indifferent store) : (Path.except left right).Indifferent store := by
  intro s s' hss
  refine alike_bind _ _ _ _ (hr s s' hss) fun rs rs' hrs => ?_
  refine alike_bind _ _ _ _ (hl s s' hss) fun ls ls' hls => .ok ?_
  refine List.rel_filter (fun b c hbc => ?_) hls
  have hsome := exists_node_iff hrs c.node
  simpa [hbc.node] using not_congr hsome

theorem indifferent_limit (source : Path) (count : Nat) (hs : source.Indifferent store) :
    (limit source count).Indifferent store := by
  intro s s' hss
  exact alike_bind _ _ _ _ (hs s s' hss) fun bs cs hbc => .ok (List.forall₂_take count hbc)

theorem indifferent_skip (source : Path) (count : Nat) (hs : source.Indifferent store) :
    (skip source count).Indifferent store := by
  intro s s' hss
  exact alike_bind _ _ _ _ (hs s s' hss) fun bs cs hbc => .ok (List.forall₂_drop count hbc)

theorem indifferent_unique (source : Path) (hs : source.Indifferent store) :
    (unique source).Indifferent store := by
  intro s s' hss
  exact alike_bind _ _ _ _ (hs s s' hss) fun bs cs hbc => .ok (samePlaces_firsts hbc)

theorem indifferent_order (source : Path) (hs : source.Indifferent store) :
    (order source).Indifferent store := by
  intro s s' hss
  exact alike_bind _ _ _ _ (hs s s' hss) fun bs cs hbc => sorted_alike hbc

theorem indifferent_of_oblivious (p : Path) (hp : p.Oblivious) : p.Indifferent store := by
  -- By induction on the path, for all seeds at once: extensions and clauses begin from other ones.
  induction hp with
  | intro p hp _ ih =>
    have hself (x : Except StoreError (List Binding)) : Alike (List.Forall₂ SamePlaces) x x := by
      cases x with
      | error e => exact .error e
      | ok found => exact .ok (List.forall₂_same.mpr fun b _ => samePlaces_refl b)
    cases p with
    | all => exact fun _ _ _ => hself _
    | fixed nodes => exact fun _ _ _ => hself _
    | here => exact fun _ _ hss => .ok (.cons hss .nil)
    | follow source route via => exact indifferent_follow source via route (ih source (.head _))
    | predicates source way => exact indifferent_predicates source way (ih source (.head _))
    | savePredicates source way name =>
      exact indifferent_savePredicates source way name (ih source (.head _))
    | save source way via name => exact indifferent_save source via way name (ih source (.head _))
    | saveAll source way => exact indifferent_saveAll source way (ih source (.head _))
    | has source way via targets =>
      exact indifferent_has source via way targets (ih source (.head _))
    | isOneOf source nodes => exact indifferent_isOneOf source nodes (ih source (.head _))
    | tag source name => exact indifferent_tag source name (ih source (.head _))
    | back source name =>
      cases name with
      | none => exact indifferent_back source (ih source (.head _))
      | some name => exact absurd rfl (hp source name)
    | union left right =>
      exact indifferent_union left right (ih left (.head _)) (ih right (.tail _ (.head _)))
    | intersect left right =>
      exact indifferent_intersect left right (ih left (.head _)) (ih right (.tail _ (.head _)))
    | except left right =>
      exact indifferent_except left right (ih left (.head _)) (ih right (.tail _ (.head _)))
    | limit source count => exact indifferent_limit source count (ih source (.head _))
    | skip source count => exact indifferent_skip source count (ih source (.head _))
    | unique source => exact indifferent_unique source (ih source (.head _))
    | order source => exact indifferent_order source (ih source (.head _))
    | optional source extension =>
      exact indifferent_optional source extension (ih source (.head _))
        (ih extension (.tail _ (.head _)))
    | whereAll source clauses =>
      exact indifferent_whereAll source clauses (ih source (.head _))
        fun clause hclause => ih clause (.tail _ hclause)
    | filter source condition => exact indifferent_filter source condition (ih source (.head _))

/-- Names have no part in where a path leads that goes back to none of them. Walked from two matches
at the same places it fails with the same error, or it comes to as many matches, which are at the
same places one by one. -/
theorem evaluate_samePlaces (store : QuadStore) (p : Path) (hp : p.Oblivious) (s s' : Binding)
    (h : s.SamePlaces s') :
    Alike (List.Forall₂ SamePlaces) (p.evaluate store (some s)) (p.evaluate store (some s')) :=
  indifferent_of_oblivious p hp s s' h

/-- Someone who likes two people, walked from a match that has named a friend before and from one
that has named nothing: what has been named then differs, where the paths lead does not. -/
theorem evaluate_samePlaces_friend :
    let store := (Graph.ofQuads [.ofIris "alice" "likes" "bob" "",
      .ofIris "alice" "likes" "dan" ""]).toStore
    let s (tags : Tags) : Binding := ⟨⟨0⟩, ⟨3⟩, tags⟩
    let named : Tags := (∅ : Tags).insert "friend" ⟨3⟩
    let liked : Path := .tag (.follow .here (.one .forward) (.fixed [⟨1⟩])) "who"
    let p : Path := .back (.intersect (.whereAll .here [liked]) (.unique .all)) none
    let out (tags : Tags) : List Binding :=
      [⟨⟨3⟩, ⟨3⟩, tags.insert "who" ⟨2⟩⟩, ⟨⟨3⟩, ⟨3⟩, tags.insert "who" ⟨3⟩⟩]
    p.Oblivious ∧ (s named).SamePlaces (s ∅) ∧
      p.evaluate store (some (s named)) = .ok (out named) ∧
      Alike (List.Forall₂ SamePlaces) (p.evaluate store (some (s named)))
        (p.evaluate store (some (s ∅))) := by
  intro store s named liked p out
  have hhere : Path.here.Oblivious := .intro _ (fun _ _ => nofun) nofun
  have hall : (Path.unique .all).Oblivious := by
    refine .intro _ (fun _ _ => nofun) (List.forall_mem_singleton.mpr ?_)
    exact .intro _ (fun _ _ => nofun) nofun
  have hliked : liked.Oblivious := by
    refine .intro _ (fun _ _ => nofun) (List.forall_mem_singleton.mpr ?_)
    exact .intro _ (fun _ _ => nofun) (List.forall_mem_singleton.mpr hhere)
  have hwhere : (Path.whereAll .here [liked]).Oblivious := by
    refine .intro _ (fun _ _ => nofun) (List.forall_mem_cons.mpr ⟨hhere, ?_⟩)
    exact List.forall_mem_singleton.mpr hliked
  have hp : p.Oblivious := by
    refine .intro _ (by simp [p]) (List.forall_mem_singleton.mpr ?_)
    refine .intro _ (fun _ _ => nofun) (List.forall_mem_cons.mpr ⟨hwhere, ?_⟩)
    exact List.forall_mem_singleton.mpr hall
  exact ⟨hp, ⟨rfl, rfl⟩, by decide +kernel, evaluate_samePlaces store p hp _ _ ⟨rfl, rfl⟩⟩

end Path

end QuadGraph
