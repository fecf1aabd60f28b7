import Mathlib.Algebra.BigOperators.Group.List.Basic
import QuadGraph.Proofs.Path.Places

/-! The order of clauses. A clause that goes back to no name does not notice what the clauses before
it have named. So it makes as many matches of a match as it would make alone, and all clauses
together make as many as the product of these numbers, in whatever order they come. -/
namespace QuadGraph

open Outcome

/-- Matches at the places of one and the same match are at the same places one by one. -/
theorem Binding.samePlaces_of_length (b : Binding) (xs ys : List Binding)
    (hlength : xs.length = ys.length) (hx : ∀ c ∈ xs, b.SamePlaces c)
    (hy : ∀ c ∈ ys, b.SamePlaces c) : List.Forall₂ SamePlaces xs ys := by
  refine List.forall₂_iff_zip.mpr ⟨hlength, fun {c d} hcd => ?_⟩
  have hc := hx c (List.of_mem_zip hcd).1
  have hd := hy d (List.of_mem_zip hcd).2
  exact ⟨hc.node.symm.trans hd.node, hc.origin.symm.trans hd.origin⟩

namespace Path

open Binding

variable {store : QuadStore} {b : Binding}

/-- The number of matches of a clause that is walked from a match. A clause that fails has none. -/
def matchCount (store : QuadStore) (b : Binding) (clause : Path) : Nat :=
  match clause.evaluate store (some b) with
  | .ok found => found.length
  | .error _ => 0

/-- A clause has as many matches from any match at the same places. -/
theorem matchCount_eq (clause : Path) (hc : clause.Indifferent store) (c : Binding)
    (found : List Binding) (h : b.SamePlaces c)
    (hfound : clause.evaluate store (some c) = .ok found) :
    matchCount store b clause = found.length := by
  have halike := hc b c h
  rw [hfound] at halike
  unfold matchCount
  cases hb : clause.evaluate store (some b) with
  | error e =>
    rw [hb] at halike
    cases halike
  | ok found' =>
    rw [hb] at halike
    cases halike with
    | ok hsame => exact hsame.length_eq

/-- One clause multiplies the matches before it, and leaves them where they are. -/
theorem length_clause (clause : Path) (hc : clause.Indifferent store) (found next : List Binding)
    (hfound : ∀ c ∈ found, b.SamePlaces c)
    (h : (found.flatMapM fun c => do return (← clause.evaluate store (some c)).map c.extend) =
      .ok next) :
    next.length = found.length * matchCount store b clause ∧ ∀ c ∈ next, b.SamePlaces c := by
  induction found generalizing next with
  | nil =>
    cases h
    exact ⟨(Nat.zero_mul _).symm, nofun⟩
  | cons c rest ih =>
    rw [List.forall_mem_cons] at hfound
    rw [List.flatMapM_cons] at h
    simp only [bind_eq_ok, pure_eq_ok] at h
    obtain ⟨_, ⟨others, hothers, rfl⟩, next', hnext, rfl⟩ := h
    obtain ⟨hlength, hplaces⟩ := ih next' hfound.2 hnext
    -- From `c` the clause makes as many matches as from `b`, which stands at the same places.
    have hcount := matchCount_eq clause hc c others hfound.1 hothers
    constructor
    · rw [List.length_append, List.length_map, hlength, ← hcount, List.length_cons, Nat.succ_mul,
        Nat.add_comm]
    · intro d hd
      rcases List.mem_append.mp hd with hd | hd
      · obtain ⟨other, -, rfl⟩ := List.mem_map.mp hd
        exact ⟨hfound.1.node, hfound.1.origin⟩
      · exact hplaces d hd

/-- Clauses multiply the matches before them by the product of their numbers of matches. This holds
too if a clause fails that is never walked: one before it has no matches then. -/
theorem length_join (clauses : List Path) (hc : ∀ clause ∈ clauses, clause.Indifferent store)
    (found out : List Binding) (hfound : ∀ c ∈ found, b.SamePlaces c)
    (h : join store clauses found = .ok out) :
    out.length = found.length * (clauses.map (matchCount store b)).prod ∧
      ∀ c ∈ out, b.SamePlaces c := by
  induction clauses generalizing found with
  | nil =>
    cases h
    exact ⟨(Nat.mul_one _).symm, hfound⟩
  | cons clause rest ih =>
    rw [List.forall_mem_cons] at hc
    obtain ⟨next, hnext, hout⟩ := (bind_eq_ok _ _ out).mp h
    obtain ⟨hlength, hplaces⟩ := length_clause clause hc.1 found next hfound hnext
    -- The matches of the clause are at the places of `b` too, so the others count as from `b`.
    obtain ⟨hrest, hout⟩ := ih hc.2 next hplaces hout
    refine ⟨?_, hout⟩
    rw [hrest, hlength, List.map_cons, List.prod_cons, Nat.mul_assoc]

/-- Clauses that can all be walked from a match can be walked one after another. -/
theorem exists_join_of_indifferent (clauses : List Path)
    (hc : ∀ clause ∈ clauses, clause.Indifferent store)
    (hok : ∀ clause ∈ clauses, ∃ others, clause.evaluate store (some b) = .ok others)
    (found : List Binding) (hfound : ∀ c ∈ found, b.SamePlaces c) :
    ∃ out, join store clauses found = .ok out := by
  induction clauses generalizing found with
  | nil => exact ⟨found, rfl⟩
  | cons clause rest ih =>
    rw [List.forall_mem_cons] at hc hok
    obtain ⟨others, hothers⟩ := hok.1
    -- A clause that can be walked from `b` fails from no match at the same places.
    have hwalk (c : Binding) (hmem : c ∈ found) : ∃ ys,
        (do return (← clause.evaluate store (some c)).map c.extend : Except StoreError _) =
          .ok ys := by
      have halike := hc.1 b c (hfound c hmem)
      rw [hothers] at halike
      cases hcs : clause.evaluate store (some c) with
      | ok cs => exact ⟨cs.map c.extend, rfl⟩
      | error e =>
        rw [hcs] at halike
        cases halike
    obtain ⟨next, hnext⟩ := exists_flatMapM_eq_ok _ found hwalk
    rw [join, hnext]
    exact ih hc.2 hok.2 next (length_clause clause hc.1 found next hfound hnext).2

/-- Clauses in another order keep the same matches before them, each as often. -/
theorem samePlaces_join (clauses clauses' : List Path) (hperm : clauses.Perm clauses')
    (hc : ∀ clause ∈ clauses, clause.Indifferent store) (out out' : List Binding)
    (h : join store clauses [b] = .ok out) (h' : join store clauses' [b] = .ok out') :
    List.Forall₂ SamePlaces out out' := by
  have hb : ∀ c ∈ [b], b.SamePlaces c := List.forall_mem_singleton.mpr (samePlaces_refl b)
  have hc' : ∀ clause ∈ clauses', clause.Indifferent store :=
    fun clause hmem => hc clause (hperm.mem_iff.mpr hmem)
  obtain ⟨hlength, hplaces⟩ := length_join clauses hc [b] out hb h
  obtain ⟨hlength', hplaces'⟩ := length_join clauses' hc' [b] out' hb h'
  have hproduct : (clauses.map (matchCount store b)).prod =
      (clauses'.map (matchCount store b)).prod := (hperm.map _).prod_eq
  refine samePlaces_of_length b out out' ?_ hplaces hplaces'
  rw [hlength, hlength', hproduct]

theorem samePlaces_blocks (clauses clauses' : List Path) (hperm : clauses.Perm clauses')
    (hc : ∀ clause ∈ clauses, clause.Indifferent store) (bs : List Binding)
    (blocks blocks' : List (List Binding))
    (h : List.Forall₂ (fun b block => join store clauses [b] = .ok block) bs blocks)
    (h' : List.Forall₂ (fun b block => join store clauses' [b] = .ok block) bs blocks') :
    List.Forall₂ (List.Forall₂ SamePlaces) blocks blocks' := by
  induction h generalizing blocks' with
  | nil =>
    cases h'
    exact .nil
  | cons hblock _ ih =>
    cases h' with
    | cons hblock' hrest =>
      exact .cons (samePlaces_join clauses clauses' hperm hc _ _ hblock hblock') (ih _ hrest)

/-- Clauses make a block of matches of every match before them. -/
theorem exists_blocks (source : Path) (clauses : List Path) (seed : Option Binding)
    (out : List Binding) (h : (whereAll source clauses).evaluate store seed = .ok out) :
    ∃ bs blocks, source.evaluate store seed = .ok bs ∧
      List.Forall₂ (fun b block => join store clauses [b] = .ok block) bs blocks ∧
      out = blocks.flatten := by
  obtain ⟨bs, hbs, hout⟩ := (bind_eq_ok _ _ out).mp h
  obtain ⟨blocks, hblocks, rfl⟩ := (flatMapM_eq_ok _ bs out).mp hout
  exact ⟨bs, blocks, hbs, (mapM_eq_ok _ bs blocks).mp hblocks, rfl⟩

/-- From a match that all clauses can be walked from, they make the product of their matches. -/
theorem length_join_of_forall₂ (clauses : List Path)
    (hc : ∀ clause ∈ clauses, clause.Indifferent store) (out : List Binding)
    (h : join store clauses [b] = .ok out) (founds : List (List Binding))
    (hfounds : List.Forall₂ (fun clause found => clause.evaluate store (some b) = .ok found)
      clauses founds) : out.length = (founds.map List.length).prod := by
  have hb : ∀ c ∈ [b], b.SamePlaces c := List.forall_mem_singleton.mpr (samePlaces_refl b)
  have hcounts : clauses.map (matchCount store b) = founds.map List.length := by
    clear h
    induction hfounds with
    | nil => rfl
    | @cons clause found _ _ hfound _ ih =>
      rw [List.forall_mem_cons] at hc
      rw [List.map_cons, List.map_cons, ih hc.2,
        matchCount_eq clause hc.1 b found (samePlaces_refl b) hfound]
  rw [(length_join clauses hc [b] out hb h).1, hcounts, List.length_singleton, Nat.one_mul]

/-- What clauses keep does not depend on their order, as long as none goes back to a name. In any
order they leave matches at the same places, in the same sequence. Of a match that each clause can
be walked from they make as many as the product of the numbers of their matches, and if each clause
can be walked from every match, so can all together. -/
theorem evaluate_whereAll_perm (store : QuadStore) (source : Path) (clauses clauses' : List Path)
    (seed : Option Binding) (hc : ∀ clause ∈ clauses, clause.Oblivious)
    (hperm : clauses.Perm clauses') :
    (∀ out out', (whereAll source clauses).evaluate store seed = .ok out →
      (whereAll source clauses').evaluate store seed = .ok out' →
      List.Forall₂ SamePlaces out out') ∧
    (∀ out, (whereAll source clauses).evaluate store seed = .ok out →
      ∃ bs blocks, source.evaluate store seed = .ok bs ∧ out = blocks.flatten ∧
        List.Forall₂ (fun b block => (∀ c ∈ block, b.SamePlaces c) ∧
          ∀ founds, List.Forall₂ (fun clause found => clause.evaluate store (some b) = .ok found)
            clauses founds → block.length = (founds.map List.length).prod) bs blocks) ∧
    (∀ bs, source.evaluate store seed = .ok bs →
      (∀ b ∈ bs, ∀ clause ∈ clauses, ∃ found, clause.evaluate store (some b) = .ok found) →
      ∃ out, (whereAll source clauses).evaluate store seed = .ok out) := by
  have hindifferent : ∀ clause ∈ clauses, clause.Indifferent store :=
    fun clause hmem => indifferent_of_oblivious clause (hc clause hmem)
  have hself (b : Binding) : ∀ c ∈ [b], b.SamePlaces c :=
    List.forall_mem_singleton.mpr (samePlaces_refl b)
  refine ⟨?_, ?_, ?_⟩
  · intro out out' h h'
    obtain ⟨bs, blocks, hbs, hjoin, rfl⟩ := exists_blocks source clauses seed out h
    obtain ⟨bs', blocks', hbs', hjoin', rfl⟩ := exists_blocks source clauses' seed out' h'
    -- Both orders begin with the same matches, and the blocks of each of these are alike.
    cases hbs.symm.trans hbs'
    exact List.rel_flatten
      (samePlaces_blocks clauses clauses' hperm hindifferent bs blocks blocks' hjoin hjoin')
  · intro out h
    obtain ⟨bs, blocks, hbs, hjoin, rfl⟩ := exists_blocks source clauses seed out h
    refine ⟨bs, blocks, hbs, rfl, hjoin.imp fun b block hblock => ⟨?_, ?_⟩⟩
    · exact (length_join clauses hindifferent [b] block (hself b) hblock).2
    · exact length_join_of_forall₂ clauses hindifferent block hblock
  · intro bs hbs hok
    simp only [evaluate, hbs]
    refine exists_flatMapM_eq_ok _ bs fun b hb => ?_
    exact exists_join_of_indifferent clauses hindifferent (hok b hb) [b] (hself b)

/-- Someone who likes two people and knows one, and two clauses that both name a person. Which name
is left depends on the clause that comes last; how many matches there are does not. -/
theorem evaluate_whereAll_perm_acquaintance :
    let store := (Graph.ofQuads [.ofIris "alice" "likes" "bob" "",
      .ofIris "alice" "likes" "dan" "", .ofIris "alice" "knows" "eve" ""]).toStore
    let likes : Path := .tag (.follow .here (.one .forward) (.fixed [⟨1⟩])) "who"
    let knows : Path := .tag (.follow .here (.one .forward) (.fixed [⟨4⟩])) "who"
    let source : Path := .fixed [⟨0⟩, ⟨2⟩]
    let who (n : NodeId) : Binding := (Binding.start ⟨0⟩).tagged "who" n
    (whereAll source [likes, knows]).evaluate store none = .ok [who ⟨5⟩, who ⟨5⟩] ∧
      (whereAll source [knows, likes]).evaluate store none = .ok [who ⟨2⟩, who ⟨3⟩] ∧
      List.Forall₂ SamePlaces [who ⟨5⟩, who ⟨5⟩] [who ⟨2⟩, who ⟨3⟩] := by
  intro store likes knows source who
  have hperson (n : NodeId) :
      (Path.tag (.follow .here (.one .forward) (.fixed [n])) "who").Oblivious := by
    refine .intro _ (fun _ _ => nofun) (List.forall_mem_singleton.mpr ?_)
    refine .intro _ (fun _ _ => nofun) (List.forall_mem_singleton.mpr ?_)
    exact .intro _ (fun _ _ => nofun) nofun
  have hclauses : ∀ clause ∈ [likes, knows], clause.Oblivious :=
    List.forall_mem_cons.mpr ⟨hperson ⟨1⟩, List.forall_mem_singleton.mpr (hperson ⟨4⟩)⟩
  have hout : (whereAll source [likes, knows]).evaluate store none = .ok [who ⟨5⟩, who ⟨5⟩] := by
    decide +kernel
  have hout' : (whereAll source [knows, likes]).evaluate store none = .ok [who ⟨2⟩, who ⟨3⟩] := by
    decide +kernel
  obtain ⟨hsame, -, -⟩ := evaluate_whereAll_perm store source [likes, knows] [knows, likes] none
    hclauses (.swap knows likes [])
  exact ⟨hout, hout', hsame _ _ hout hout'⟩

end Path

end QuadGraph
