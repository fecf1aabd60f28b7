import QuadGraph.Proofs.Path.Converse
import QuadGraph.Proofs.Path.Relative

/-! Exchanging paths in a path. What a path comes to depends on what the paths in it come to, with
one exception: the path to all nodes says by its form alone that any predicate may be followed,
while every other path to predicates is walked for them. Over a graph this makes no difference, as
the predicates of stored quads are nodes too. So what comes to all nodes may stand in for the path
to them anywhere. -/
namespace QuadGraph.Path

open Walking

/-- Some of the sites in a path. A site is told by the numbers of the parts that lead to it. Part 0
is the path that another one goes on from, or its left side; part 1 is the path to predicates, the
right side or the extension; clauses are counted from 1. -/
abbrev Sites := List Nat → Bool

/-- The sites in a part of a path. -/
def Sites.within (sites : Sites) (part : Nat) : Sites :=
  fun site => sites (part :: site)

mutual

/-- The path with `q` in place of the path to all nodes, at some sites. -/
def substitute : Path → Path → Sites → Path
  | .all, q, sites => if sites [] then q else .all
  | .fixed given, _, _ => .fixed given
  | .here, _, _ => .here
  | .follow source route via, q, sites =>
    .follow (source.substitute q (sites.within 0)) route (via.substitute q (sites.within 1))
  | .predicates source way, q, sites => .predicates (source.substitute q (sites.within 0)) way
  | .savePredicates source way name, q, sites =>
    .savePredicates (source.substitute q (sites.within 0)) way name
  | .save source way via name, q, sites =>
    .save (source.substitute q (sites.within 0)) way (via.substitute q (sites.within 1)) name
  | .saveAll source way, q, sites => .saveAll (source.substitute q (sites.within 0)) way
  | .has source way via targets, q, sites =>
    .has (source.substitute q (sites.within 0)) way (via.substitute q (sites.within 1)) targets
  | .isOneOf source given, q, sites => .isOneOf (source.substitute q (sites.within 0)) given
  | .tag source name, q, sites => .tag (source.substitute q (sites.within 0)) name
  | .back source name, q, sites => .back (source.substitute q (sites.within 0)) name
  | .union left right, q, sites =>
    .union (left.substitute q (sites.within 0)) (right.substitute q (sites.within 1))
  | .intersect left right, q, sites =>
    .intersect (left.substitute q (sites.within 0)) (right.substitute q (sites.within 1))
  | .except left right, q, sites =>
    .except (left.substitute q (sites.within 0)) (right.substitute q (sites.within 1))
  | .limit source count, q, sites => .limit (source.substitute q (sites.within 0)) count
  | .skip source count, q, sites => .skip (source.substitute q (sites.within 0)) count
  | .unique source, q, sites => .unique (source.substitute q (sites.within 0))
  | .order source, q, sites => .order (source.substitute q (sites.within 0))
  | .optional source extension, q, sites =>
    .optional (source.substitute q (sites.within 0)) (extension.substitute q (sites.within 1))
  | .whereAll source clauses, q, sites =>
    .whereAll (source.substitute q (sites.within 0)) (substituteAll clauses q sites 1)
  | .filter source condition, q, sites =>
    .filter (source.substitute q (sites.within 0)) condition

def substituteAll : List Path → Path → Sites → Nat → List Path
  | [], _, _, _ => []
  | clause :: rest, q, sites, number =>
    clause.substitute q (sites.within number) :: substituteAll rest q sites (number + 1)

end

/-- Two paths that come to the same matches from any seed, or fail with the same error. -/
def SameMatches (store : QuadStore) (p p' : Path) : Prop :=
  ∀ seed, p.evaluate store seed = p'.evaluate store seed

section Stages

variable {store : QuadStore} {nodes nodes' : Option (List NodeId)}

theorem hops_congr
    (h : ∀ way n, Walking.quads store way nodes n = Walking.quads store way nodes' n)
    (route : Route) (n : NodeId) : hops store route nodes n = hops store route nodes' n := by
  cases route <;> simp only [hops, h]

theorem join_congr (clauses clauses' : List Path)
    (h : List.Forall₂ (SameMatches store) clauses clauses') (found : List Binding) :
    join store clauses found = join store clauses' found := by
  induction h generalizing found with
  | nil => rfl
  | cons hclause _ ih =>
    rw [join, join]
    simp only [fun b => hclause (some b), ih]

/-- What a path does with each match does not depend on where it goes on from. -/
theorem sameMatches_of_stage {p p' source source' : Path} (hp : p.pointwise? = some source)
    (hp' : p'.pointwise? = some source') (hs : SameMatches store source source')
    (h : p.stage store = p'.stage store) : SameMatches store p p' := by
  intro seed
  rw [evaluate_eq_stage store p source seed hp, evaluate_eq_stage store p' source' seed hp',
    h, hs seed]

end Stages

section Predicates

variable {quads : List Quad} {via via' : Path}
  (h : SameMatches (Graph.ofQuads quads).toStore via via')

include h

/-- Paths to predicates that come to the same matches let the same quads be followed, even if one of
them is not walked. So nothing that asks for these quads can tell the two apart. -/
theorem bind_admitted_congr {α : Type} (next : Option (List NodeId) → Except StoreError α)
    (hnext : ∀ nodes nodes', (∀ way n, Walking.quads (Graph.ofQuads quads).toStore way nodes n =
      Walking.quads (Graph.ofQuads quads).toStore way nodes' n) → next nodes = next nodes') :
    admitted via (via.evaluate (Graph.ofQuads quads).toStore none) >>= next =
      admitted via' (via'.evaluate (Graph.ofQuads quads).toStore none) >>= next := by
  have hisAll (p : Path) (e : StoreError)
      (hp : p.evaluate (Graph.ofQuads quads).toStore none = .error e) : p.isAll = false := by
    refine Bool.eq_false_iff.mpr fun hall => ?_
    rw [p.eq_all_of_isAll hall] at hp
    cases hp
  have hvia := h none
  cases hfound : via'.evaluate (Graph.ofQuads quads).toStore none with
  | error e =>
    -- A graph can always list its nodes, so both paths are others and are walked.
    rw [hfound] at hvia
    rw [hvia, admitted, admitted, hisAll via e hvia, hisAll via' e hfound]
  | ok found =>
    obtain ⟨nodes, hnodes, hadmits⟩ := admits_iff_of_evaluate (hvia.trans hfound)
    obtain ⟨nodes', hnodes', hadmits'⟩ := admits_iff_of_evaluate hfound
    have hquads (way : Way) (n : NodeId) :
        Walking.quads (Graph.ofQuads quads).toStore way nodes n =
          Walking.quads (Graph.ofQuads quads).toStore way nodes' n :=
      (quads_toStore hadmits way n).trans (quads_toStore hadmits' way n).symm
    rw [← hfound, hnodes, hnodes']
    exact hnext nodes nodes' hquads

theorem stage_follow_congr (source source' : Path) (route : Route) :
    (follow source route via).stage (Graph.ofQuads quads).toStore =
      (follow source' route via').stage (Graph.ofQuads quads).toStore := by
  rw [stage, stage]
  refine bind_admitted_congr h _ fun nodes nodes' hquads => ?_
  simp only [hops_congr hquads]

theorem stage_save_congr (source source' : Path) (way : Way) (name : String) :
    (save source way via name).stage (Graph.ofQuads quads).toStore =
      (save source' way via' name).stage (Graph.ofQuads quads).toStore := by
  rw [stage, stage]
  refine bind_admitted_congr h _ fun nodes nodes' hquads => ?_
  simp only [hquads]

theorem stage_has_congr (source source' : Path) (way : Way) (targets : Option (List NodeId)) :
    (has source way via targets).stage (Graph.ofQuads quads).toStore =
      (has source' way via' targets).stage (Graph.ofQuads quads).toStore := by
  rw [stage, stage]
  refine bind_admitted_congr h _ fun nodes nodes' hquads => ?_
  simp only [hquads]

end Predicates

section Substitution

variable {quads : List Quad} {q : Path}

mutual

/-- A path that comes to all nodes does in any path what the path to all nodes does. -/
theorem sameMatches_substitute (hq : SameMatches (Graph.ofQuads quads).toStore q .all) (p : Path)
    (sites : Sites) : SameMatches (Graph.ofQuads quads).toStore (p.substitute q sites) p := by
  cases p with
  | all =>
    rw [substitute]
    split
    · exact hq
    · exact fun _ => rfl
  | fixed given => exact fun _ => rfl
  | here => exact fun _ => rfl
  | follow source route via =>
    exact sameMatches_of_stage rfl rfl (sameMatches_substitute hq source _)
      (stage_follow_congr (sameMatches_substitute hq via _) _ _ route)
  | predicates source way =>
    exact sameMatches_of_stage rfl rfl (sameMatches_substitute hq source _) rfl
  | savePredicates source way name =>
    exact sameMatches_of_stage rfl rfl (sameMatches_substitute hq source _) rfl
  | save source way via name =>
    exact sameMatches_of_stage rfl rfl (sameMatches_substitute hq source _)
      (stage_save_congr (sameMatches_substitute hq via _) _ _ way name)
  | saveAll source way =>
    exact sameMatches_of_stage rfl rfl (sameMatches_substitute hq source _) rfl
  | has source way via targets =>
    exact sameMatches_of_stage rfl rfl (sameMatches_substitute hq source _)
      (stage_has_congr (sameMatches_substitute hq via _) _ _ way targets)
  | isOneOf source given =>
    exact sameMatches_of_stage rfl rfl (sameMatches_substitute hq source _) rfl
  | tag source name =>
    exact sameMatches_of_stage rfl rfl (sameMatches_substitute hq source _) rfl
  | back source name =>
    exact sameMatches_of_stage rfl rfl (sameMatches_substitute hq source _) rfl
  | union left right =>
    intro seed
    rw [substitute, evaluate, evaluate, sameMatches_substitute hq left _ seed,
      sameMatches_substitute hq right _ seed]
  | intersect left right =>
    intro seed
    rw [substitute, evaluate, evaluate, sameMatches_substitute hq left _ seed,
      sameMatches_substitute hq right _ seed]
  | except left right =>
    intro seed
    rw [substitute, evaluate, evaluate, sameMatches_substitute hq left _ seed,
      sameMatches_substitute hq right _ seed]
  | limit source count =>
    intro seed
    rw [substitute, evaluate, evaluate, sameMatches_substitute hq source _ seed]
  | skip source count =>
    intro seed
    rw [substitute, evaluate, evaluate, sameMatches_substitute hq source _ seed]
  | unique source =>
    intro seed
    rw [substitute, evaluate, evaluate, sameMatches_substitute hq source _ seed]
  | order source =>
    intro seed
    rw [substitute, evaluate, evaluate, sameMatches_substitute hq source _ seed]
  | optional source extension =>
    -- The extension begins from another seed for every match.
    have hextension := sameMatches_substitute hq extension (sites.within 1)
    refine sameMatches_of_stage rfl rfl (sameMatches_substitute hq source _) ?_
    simp only [substitute, stage, fun b => hextension (some b)]
  | whereAll source clauses =>
    have hclauses := sameMatches_substituteAll hq clauses sites 1
    refine sameMatches_of_stage rfl rfl (sameMatches_substitute hq source _) ?_
    simp only [substitute, stage, join_congr _ _ hclauses]
  | filter source condition =>
    exact sameMatches_of_stage rfl rfl (sameMatches_substitute hq source _) rfl

theorem sameMatches_substituteAll (hq : SameMatches (Graph.ofQuads quads).toStore q .all)
    (clauses : List Path) (sites : Sites) (number : Nat) :
    List.Forall₂ (SameMatches (Graph.ofQuads quads).toStore)
      (substituteAll clauses q sites number) clauses := by
  cases clauses with
  | nil => exact .nil
  | cons clause rest =>
    exact .cons (sameMatches_substitute hq clause _) (sameMatches_substituteAll hq rest sites _)

end

end Substitution

/-- All nodes may be listed at any sites of a path, so also where the path to them stands for any
predicate, be it in a source, an extension, a clause or another path to predicates. Over a graph the
path then comes to the same matches in the same order, from any seed, or fails with the same
error. -/
theorem evaluate_substitute_nodes (quads : List Quad) (p : Path) (sites : Sites)
    (seed : Option Binding) :
    ∃ nodes, (Graph.ofQuads quads).toStore.nodes = .ok nodes ∧
      (p.substitute (.fixed nodes) sites).evaluate (Graph.ofQuads quads).toStore seed =
        p.evaluate (Graph.ofQuads quads).toStore seed := by
  let g := Graph.ofQuads quads
  have hlist : SameMatches g.toStore (.fixed g.table.nodes) .all := fun _ => rfl
  exact ⟨g.table.nodes, rfl, sameMatches_substitute hlist p sites seed⟩

/-- Nodes are listed where the first clause follows any predicate, and where the second one has any
followed to find its predicates. Both paths still begin at all nodes. -/
example :
    let p (any any' : Path) : Path := .whereAll .here [.follow .all .both any,
      .has .here .forward (.follow .all (.one .forward) any') none]
    let nodes : Path := .fixed [⟨0⟩, ⟨1⟩]
    (p .all .all).substitute nodes (fun site => site = [1, 1] ∨ site = [2, 1, 1]) = p nodes nodes :=
  rfl

end QuadGraph.Path
