import QuadGraph.Path.Evaluation
import QuadGraph.Proofs.Outcome
import QuadGraph.Store.Graph

/-! Relative paths: those that lead from one match to others without a beginning of their own. A
relative path walked from every match of another path gives the matches of the two paths joined. -/
namespace QuadGraph.Path

open Outcome Walking

/-- The path that another one goes on from, if it treats the matches of that path one by one. -/
def pointwise? : Path → Option Path
  | .follow source _ _ => some source
  | .predicates source _ => some source
  | .savePredicates source _ _ => some source
  | .save source _ _ _ => some source
  | .saveAll source _ => some source
  | .has source _ _ _ => some source
  | .isOneOf source _ => some source
  | .tag source _ => some source
  | .back source _ => some source
  | .optional source _ => some source
  | .whereAll source _ => some source
  | .filter source _ => some source
  | _ => none

/-- A path that goes on from the place where another one stands, match by match. What is walked
besides, such as clauses and the paths to predicates, may be any path. -/
inductive Relative : Path → Prop
  | here : Relative .here
  | next (p source : Path) (h : p.pointwise? = some source) (hs : Relative source) : Relative p

/-- A relative path that begins where another path ends. -/
def graft : Path → Path → Path
  | .here, q => q
  | .follow source route via, q => .follow (source.graft q) route via
  | .predicates source way, q => .predicates (source.graft q) way
  | .savePredicates source way name, q => .savePredicates (source.graft q) way name
  | .save source way via name, q => .save (source.graft q) way via name
  | .saveAll source way, q => .saveAll (source.graft q) way
  | .has source way via targets, q => .has (source.graft q) way via targets
  | .isOneOf source nodes, q => .isOneOf (source.graft q) nodes
  | .tag source name, q => .tag (source.graft q) name
  | .back source name, q => .back (source.graft q) name
  | .optional source extension, q => .optional (source.graft q) extension
  | .whereAll source clauses, q => .whereAll (source.graft q) clauses
  | .filter source condition, q => .filter (source.graft q) condition
  | p, _ => p

/-- What a path does with each match of the path it goes on from. The path to the predicates is
walked once, before any match is looked at. -/
def stage (store : QuadStore) :
    Path → Except StoreError (Binding → Except StoreError (List Binding))
  | .follow _ route via => do
    let admitted ← admitted via (via.evaluate store none)
    return fun b => do return (← hops store route admitted b.node).map b.moved
  | .predicates _ way => return fun b => do
    return (Walking.predicates (← store.quadsBy way.near b.node)).map b.moved
  | .savePredicates _ way name => return fun b => do
    return (Walking.predicates (← store.quadsBy way.near b.node)).map (b.tagged name)
  | .save _ way via name => do
    let admitted ← admitted via (via.evaluate store none)
    return fun b => do
      return (← quads store way admitted b.node).map fun q => b.tagged name (way.far q)
  | .saveAll _ way => return Walking.saveAll store way
  | .has _ way via targets => do
    let admitted ← admitted via (via.evaluate store none)
    return fun b => do
      let found ← quads store way admitted b.node
      return if found.any fun q => admits targets (way.far q) then [b] else []
  | .isOneOf _ nodes => return fun b => return if nodes.contains b.node then [b] else []
  | .tag _ name => return fun b => return [b.tagged name b.node]
  | .back _ name => return fun b => return Option.toList <| match name with
    | some name => b.tags[name]?.map b.moved
    | none => some (b.moved b.origin)
  | .optional _ extension => return fun b => do
    return [match (← extension.evaluate store (some b)).head? with
      | some found => b.extend found
      | none => b]
  | .whereAll _ clauses => return fun b => join store clauses [b]
  | .filter _ condition => return fun b => do
    return if (← store.termOf b.node).any condition.accepts then [b] else []
  | _ => return fun b => return [b]

theorem pointwise_graft (p q source : Path) (h : p.pointwise? = some source) :
    (p.graft q).pointwise? = some (source.graft q) := by
  cases p <;> simp only [pointwise?, Option.some.injEq, reduceCtorEq] at h <;> subst h <;> rfl

theorem stage_graft (store : QuadStore) (p q source : Path) (h : p.pointwise? = some source) :
    (p.graft q).stage store = p.stage store := by
  cases p <;> simp only [pointwise?, reduceCtorEq] at h <;> rfl

theorem flatMap_ite (f : Binding → Bool) (found : List Binding) :
    (found.flatMap fun b => if f b then [b] else []) = found.filter f := by
  induction found with
  | nil => rfl
  | cons b rest ih => by_cases hb : f b <;> simp [hb, ih]

/-- A path that goes on from another one walks that one and then each of its matches. -/
theorem evaluate_eq_stage (store : QuadStore) (p source : Path) (seed : Option Binding)
    (h : p.pointwise? = some source) :
    p.evaluate store seed =
      p.stage store >>= fun stage =>
        source.evaluate store seed >>= fun found => found.flatMapM stage := by
  cases p <;> simp only [pointwise?, Option.some.injEq, reduceCtorEq] at h <;> subst h <;>
    simp only [evaluate, stage, bind_assoc, pure_bind]
  -- The others are passes of this form already.
  case isOneOf => simp only [flatMapM_pure, flatMap_ite]
  case tag => simp only [flatMapM_pure, List.map_eq_flatMap]
  case back => exact congrArg _ (funext fun found => filterMap_eq_flatMapM _ found)
  case optional => exact congrArg _ (funext fun found => mapM_eq_flatMapM _ _ found)

/-- From a single match a path does what its stage does to the matches of the path before it. -/
theorem evaluate_eq_ok_of_pointwise (store : QuadStore) (p source : Path) (seed : Option Binding)
    (out : List Binding) (h : p.pointwise? = some source) :
    p.evaluate store seed = .ok out ↔
      ∃ stage, p.stage store = .ok stage ∧
        ∃ found, source.evaluate store seed = .ok found ∧ found.flatMapM stage = .ok out := by
  simp only [evaluate_eq_stage store p source seed h, bind_eq_ok]

/-- A path that goes on from a given match does with it what its stage does. -/
theorem evaluate_of_here (store : QuadStore) (p : Path) (b : Binding)
    (h : p.pointwise? = some .here) :
    p.evaluate store (some b) = p.stage store >>= fun stage => stage b := by
  have hsingle (stage : Binding → Except StoreError (List Binding)) :
      [b].flatMapM stage = stage b := by
    simp
  rw [evaluate_eq_stage store p .here (some b) h]
  exact congrArg _ (funext hsingle)

/-- A path stays in step with its stage: as soon as the stage is there, walking the path from each
of some matches is one pass through its source and the stage. -/
theorem flatMapM_evaluate_eq_ok (store : QuadStore) (p source : Path)
    (stage : Binding → Except StoreError (List Binding)) (bs out : List Binding)
    (h : p.pointwise? = some source) (hstage : p.stage store = .ok stage) :
    (bs.flatMapM fun b => p.evaluate store (some b)) = .ok out ↔
      ∃ mid, (bs.flatMapM fun b => source.evaluate store (some b)) = .ok mid ∧
        mid.flatMapM stage = .ok out := by
  have hp (b : Binding) : p.evaluate store (some b) =
      source.evaluate store (some b) >>= fun found => found.flatMapM stage := by
    rw [evaluate_eq_stage store p source (some b) h, hstage]
    rfl
  simp only [hp]
  exact flatMapM_flatMapM_eq_ok _ stage bs out

/-- Where a grafted path can be walked, so can the path below, and the relative path from each of
the matches of that one. -/
theorem evaluate_of_graft (store : QuadStore) (p q : Path) (hp : p.Relative)
    (seed : Option Binding) (out : List Binding) (h : (p.graft q).evaluate store seed = .ok out) :
    ∃ bs, q.evaluate store seed = .ok bs ∧
      (bs.flatMapM fun b => p.evaluate store (some b)) = .ok out := by
  induction hp generalizing out with
  | here =>
    refine ⟨out, h, ?_⟩
    simp only [evaluate, flatMapM_pure, List.flatMap_singleton']
    rfl
  | next p source hsource _ ih =>
    obtain ⟨stage, hstage, mid, hmid, hout⟩ := (evaluate_eq_ok_of_pointwise store _ _ seed out
      (pointwise_graft p q source hsource)).mp h
    rw [stage_graft store p q source hsource] at hstage
    obtain ⟨bs, hbs, hrest⟩ := ih mid hmid
    exact ⟨bs, hbs,
      (flatMapM_evaluate_eq_ok store p source stage bs out hsource hstage).mpr ⟨mid, hrest, hout⟩⟩

/-- Where the path below has a match and the relative path can be walked from each of them, the
grafted path can be walked. One match is needed: it shows that the paths to predicates, which the
grafted path walks in any case, can be walked. -/
theorem evaluate_graft_of (store : QuadStore) (p q : Path) (hp : p.Relative)
    (seed : Option Binding) (bs out : List Binding) (hq : q.evaluate store seed = .ok bs)
    (hne : bs ≠ []) (h : (bs.flatMapM fun b => p.evaluate store (some b)) = .ok out) :
    (p.graft q).evaluate store seed = .ok out := by
  induction hp generalizing out with
  | here =>
    simp only [evaluate, flatMapM_pure, List.flatMap_singleton', pure_eq_ok] at h
    rw [← h]
    exact hq
  | next p source hsource _ ih =>
    obtain ⟨b, rest, rfl⟩ := List.exists_cons_of_ne_nil hne
    have hfirst : ∃ first, p.evaluate store (some b) = .ok first := by
      simp only [List.flatMapM_cons, bind_eq_ok] at h
      obtain ⟨first, hfirst, -⟩ := h
      exact ⟨first, hfirst⟩
    obtain ⟨first, hfirst⟩ := hfirst
    -- The stage does not depend on the match, so one walk shows that it is there for all.
    obtain ⟨stage, hstage, -⟩ :=
      (evaluate_eq_ok_of_pointwise store p source (some b) first hsource).mp hfirst
    obtain ⟨mid, hmid, hout⟩ :=
      (flatMapM_evaluate_eq_ok store p source stage _ out hsource hstage).mp h
    refine (evaluate_eq_ok_of_pointwise store _ _ seed out
      (pointwise_graft p q source hsource)).mpr ⟨stage, ?_, mid, ih mid hmid, hout⟩
    rw [stage_graft store p q source hsource]
    exact hstage

/-- Walking a relative path from every match of another path, in order, is walking the two joined:
a walk of the joined path splits in this way, and the parts make a walk of the joined path unless
there are no matches to go on from. -/
theorem evaluate_graft (store : QuadStore) (p q : Path) (hp : p.Relative)
    (seed : Option Binding) :
    (∀ out, (p.graft q).evaluate store seed = .ok out →
      ∃ bs outs, q.evaluate store seed = .ok bs ∧
        List.Forall₂ (fun b found => p.evaluate store (some b) = .ok found) bs outs ∧
        out = outs.flatten) ∧
    (∀ bs, q.evaluate store seed = .ok bs → bs ≠ [] →
      (∀ b ∈ bs, ∃ found, p.evaluate store (some b) = .ok found) →
      ∃ out, (p.graft q).evaluate store seed = .ok out) := by
  constructor
  · intro out h
    obtain ⟨bs, hbs, hout⟩ := evaluate_of_graft store p q hp seed out h
    obtain ⟨outs, houts, rfl⟩ := (flatMapM_eq_ok _ bs out).mp hout
    exact ⟨bs, outs, hbs, (mapM_eq_ok _ bs outs).mp houts, rfl⟩
  · intro bs hbs hne hall
    obtain ⟨outs, houts⟩ := exists_mapM_eq_ok (fun b => p.evaluate store (some b)) bs hall
    exact ⟨outs.flatten, evaluate_graft_of store p q hp seed bs _ hbs hne
      ((flatMapM_eq_ok _ bs _).mpr ⟨outs, houts, rfl⟩)⟩

/-- Two people who like the same one: the path names who likes a person and returns to that name,
and it is walked from the person at the end of each of two quads. -/
theorem evaluate_graft_liked_twice :
    let store := (Graph.ofQuads [.ofIris "alice" "likes" "bob" "",
      .ofIris "dan" "likes" "bob" ""]).toStore
    let p : Path := .back (.whereAll .here
      [.tag (.follow .here (.one .backward) (.fixed [⟨1⟩])) "fan"]) (some "fan")
    let q : Path := .follow (.fixed [⟨0⟩, ⟨3⟩]) (.one .forward) .all
    let out : List Binding := [
      ⟨⟨0⟩, ⟨0⟩, (∅ : Tags).insert "fan" ⟨0⟩⟩, ⟨⟨3⟩, ⟨0⟩, (∅ : Tags).insert "fan" ⟨3⟩⟩,
      ⟨⟨0⟩, ⟨3⟩, (∅ : Tags).insert "fan" ⟨0⟩⟩, ⟨⟨3⟩, ⟨3⟩, (∅ : Tags).insert "fan" ⟨3⟩⟩]
    p.Relative ∧ (p.graft q).evaluate store none = .ok out ∧
      ∃ bs outs, q.evaluate store none = .ok bs ∧
        List.Forall₂ (fun b found => p.evaluate store (some b) = .ok found) bs outs ∧
        out = outs.flatten := by
  intro store p q out
  have hp : p.Relative := .next _ _ rfl (.next _ _ rfl .here)
  have hout : (p.graft q).evaluate store none = .ok out := by decide +kernel
  exact ⟨hp, hout, (evaluate_graft store p q hp none).1 out hout⟩

end QuadGraph.Path
