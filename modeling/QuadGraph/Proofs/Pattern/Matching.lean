import QuadGraph.Proofs.Path.Reach
import QuadGraph.Proofs.Pattern.Meaning
import QuadGraph.Proofs.Step.Names
import QuadGraph.Regex.Basic

/-! What is left of the matches of a path when a graph pattern is asked of them: a match stays, as
often as there are ways to meet the nested patterns, if its node satisfies the pattern. -/
namespace QuadGraph

open Outcome Walking Compilation

namespace Path

theorem join_append (store : QuadStore) (clauses : List Path) (xs ys xs' ys' : List Binding)
    (hx : join store clauses xs = .ok xs') (hy : join store clauses ys = .ok ys') :
    join store clauses (xs ++ ys) = .ok (xs' ++ ys') := by
  induction clauses generalizing xs ys with
  | nil =>
    cases hx
    cases hy
    rfl
  | cons clause rest ih =>
    rw [join, bind_eq_ok] at hx hy ⊢
    obtain ⟨mx, hmx, hx⟩ := hx
    obtain ⟨my, hmy, hy⟩ := hy
    exact ⟨mx ++ my, (flatMapM_append_eq_ok _ xs ys _).mpr ⟨mx, my, hmx, hmy, rfl⟩,
      ih mx my hx hy⟩

theorem join_nil (store : QuadStore) (clauses : List Path) : join store clauses [] = .ok [] := by
  induction clauses with
  | nil => rfl
  | cons clause rest ih => exact ih

/-- Clauses that repeat a match repeat every copy of it as often. -/
theorem join_replicate (store : QuadStore) (clauses : List Path) (b : Binding) (k : Nat)
    (h : join store clauses [b] = .ok (List.replicate k b)) (j : Nat) :
    join store clauses (List.replicate j b) = .ok (List.replicate (j * k) b) := by
  induction j with
  | zero => simpa using join_nil store clauses
  | succ j ih =>
    calc join store clauses (List.replicate (j + 1) b)
        = .ok (List.replicate k b ++ List.replicate (j * k) b) :=
          join_append store clauses [b] (List.replicate j b) _ _ h ih
      _ = .ok (List.replicate ((j + 1) * k) b) := by
          rw [List.replicate_append_replicate, Nat.succ_mul, Nat.add_comm]

theorem extend_of_tags (b other : Binding) (h : other.tags = b.tags) : b.extend other = b := by
  have hunion : b.tags ∪ b.tags = b.tags := by
    apply Std.ExtTreeMap.ext_getElem?
    intro name
    simp [Std.ExtTreeMap.getElem?_union]
  simp [Binding.extend, h, hunion]

/-- A clause whose matches have the tags of the match before it repeats that match. -/
theorem join_cons (store : QuadStore) (clause : Path) (rest : List Path) (b : Binding)
    (found : List Binding) (k : Nat) (hfound : clause.evaluate store (some b) = .ok found)
    (htags : ∀ other ∈ found, other.tags = b.tags)
    (hrest : join store rest [b] = .ok (List.replicate k b)) :
    join store (clause :: rest) [b] = .ok (List.replicate (found.length * k) b) := by
  have hcopies : found.map b.extend = List.replicate found.length b := by
    rw [List.eq_replicate_iff]
    refine ⟨List.length_map _, ?_⟩
    intro other hother
    obtain ⟨f, hf, rfl⟩ := List.mem_map.mp hother
    exact extend_of_tags b f (htags f hf)
  rw [join, List.flatMapM_cons, hfound]
  simp only [List.flatMapM_nil, bind, Except.bind, pure, Except.pure,
    List.append_nil, hcopies]
  exact join_replicate store rest b k hrest found.length

end Path

variable {g : Graph} {quads : List Quad} {v : Vocabulary}

/-- The path to a property of a name allows the predicate that the name is expanded to. -/
theorem admits_property (g : Graph) (hc : g.table.Consistent) (v : Vocabulary) (name : String)
    (n : NodeId) (t : Term) (ht : g.table.termOf? n = some t) :
    admits (some (nodesOf g v [.iri name])) n ↔ t = .iri (v.fullIri name) := by
  have hmem := mem_nodesOf_iff g hc v [.iri name] n t ht
  rw [List.map_singleton, List.mem_singleton] at hmem
  simpa [admits, Vocabulary.expand] using hmem

/-- The quads of a property that begin at a node end at the values of the property. -/
theorem exists_mem_property (hi : g.Indexed) (hg : g.Holds quads) (name : String) (n : NodeId) :
    ∃ found, Walking.quads g.toStore .forward (some (nodesOf g v [.iri name])) n = .ok found ∧
      (∀ q ∈ found, ∃ o, g.table.termOf? q.object = some o ∧
        HasValue quads v (g.table.termOf? n) name o) ∧
      ∀ o, HasValue quads v (g.table.termOf? n) name o →
        ∃ q ∈ found, g.table.termOf? q.object = some o := by
  obtain ⟨found, hfound, hsound, hcomplete⟩ := Path.exists_mem_quads hi hg .forward
    (some (nodesOf g v [.iri name])) _ (admits_property g hg.consistent v name) n
  refine ⟨found, hfound, ?_, ?_⟩
  · intro q hq
    obtain ⟨s, p, o, hs, rfl, hlink, ho⟩ := hsound q hq
    exact ⟨o, ho, s, hs, hlink⟩
  · rintro o ⟨s, hs, hlink⟩
    exact hcomplete s _ o hs rfl hlink

/-- Walked from a match, a clause comes to something exactly under a condition, and names nothing.
It comes to one thing at most if it is asked `once`. -/
def Repeats (g : Graph) (clause : Path) (b : Binding) (C once : Prop) : Prop :=
  ∃ found, clause.evaluate g.toStore (some b) = .ok found ∧
    (∀ other ∈ found, other.tags = b.tags) ∧ (0 < found.length ↔ C) ∧ (once → found.length ≤ 1)

/-- Clauses keep a match exactly under a condition, and repeat it only if it is not asked `once`. -/
def Keeps (g : Graph) (clauses : List Path) (b : Binding) (C once : Prop) : Prop :=
  ∃ k, Path.join g.toStore clauses [b] = .ok (List.replicate k b) ∧ (0 < k ↔ C) ∧ (once → k ≤ 1)

theorem keeps_cons (clause : Path) (rest : List Path) (b : Binding) (C C' once once' : Prop)
    (hc : Repeats g clause b C once) (hr : Keeps g rest b C' once') :
    Keeps g (clause :: rest) b (C ∧ C') (once ∧ once') := by
  obtain ⟨found, hfound, htags, hpos, hle⟩ := hc
  obtain ⟨k, hk, hposk, hlek⟩ := hr
  refine ⟨found.length * k, Path.join_cons g.toStore clause rest b found k hfound htags hk, ?_, ?_⟩
  · rw [← hpos, ← hposk]
    simp only [Nat.pos_iff_ne_zero, Nat.mul_ne_zero_iff]
  · rintro ⟨h, h'⟩
    exact Nat.mul_le_mul (hle h) (hlek h')

theorem repeats_ite (clause : Path) (b : Binding) (keep : Bool) (C : Prop) (hkeep : keep ↔ C)
    (h : clause.evaluate g.toStore (some b) = .ok (if keep then [b] else [])) :
    Repeats g clause b C True := by
  refine ⟨_, h, ?_⟩
  cases keep with
  | true => simpa using hkeep
  | false => simpa using hkeep

theorem repeats_isOneOf (hc : g.table.Consistent) (things : List Term) (b : Binding) :
    Repeats g (.isOneOf .here (nodesOf g v things)) b
      (∃ t ∈ things, g.table.termOf? b.node = some (v.expand t)) True := by
  refine repeats_ite _ b ((nodesOf g v things).contains b.node) _ ?_ ?_
  · rw [List.contains_iff_mem, mem_nodesOf g hc]
  · simp only [Path.evaluate, pure_bind, List.filter_cons, List.filter_nil]
    rfl

theorem repeats_has (hi : g.Indexed) (hg : g.Holds quads) (name : String) (value : Term)
    (b : Binding) :
    Repeats g (.has .here .forward (.fixed (nodesOf g v [.iri name]))
        (some (nodesOf g v [value]))) b
      (HasValue quads v (g.table.termOf? b.node) name (v.expand value)) True := by
  obtain ⟨found, hfound, hsound, hcomplete⟩ :=
    exists_mem_property (v := v) hi hg name b.node
  refine repeats_ite _ b (found.any fun q => admits (some (nodesOf g v [value])) q.object) _ ?_ ?_
  · simp only [List.any_eq_true, admits, Option.all_some, List.contains_iff_mem,
      mem_nodesOf g hg.consistent, List.mem_singleton, exists_eq_left]
    constructor
    · rintro ⟨q, hq, hterm⟩
      obtain ⟨o, ho, hvalue⟩ := hsound q hq
      cases hterm.symm.trans ho
      exact hvalue
    · intro hvalue
      exact hcomplete _ hvalue
  · rw [Path.evaluate_of_here _ _ b rfl, Path.stage, admitted_fixed]
    simp only [bind, Except.bind, pure, Except.pure, hfound]
    rfl

/-- A value of a property is followed to, and the clauses walked from there keep it or not. -/
theorem repeats_leadsTo (hi : g.Indexed) (hg : g.Holds quads) (name : String) (inner : List Path)
    (b : Binding) (C : Option Term → Prop) (once : Prop)
    (hinner : ∀ b, Keeps g inner b (C (g.table.termOf? b.node)) once) :
    Repeats g (.whereAll (.follow .here (.one .forward) (.fixed (nodesOf g v [.iri name]))) inner)
      b (∃ o, HasValue quads v (g.table.termOf? b.node) name o ∧ C (some o)) False := by
  obtain ⟨found, hfound, hsound, hcomplete⟩ :=
    exists_mem_property (v := v) hi hg name b.node
  have hfollow : (Path.follow .here (.one .forward) (.fixed (nodesOf g v [.iri name]))).evaluate
      g.toStore (some b) = .ok (found.map fun q => b.moved q.object) := by
    rw [Path.evaluate_of_here _ _ b rfl, Path.stage, admitted_fixed]
    simp only [bind, Except.bind, pure, Except.pure, hops, hfound, List.map_map]
    rfl
  obtain ⟨out, hout⟩ := exists_flatMapM_eq_ok (fun b => Path.join g.toStore inner [b])
    (found.map fun q => b.moved q.object) fun b' _ => by
      obtain ⟨k, hk, -⟩ := hinner b'
      exact ⟨_, hk⟩
  -- Every match that comes out is a copy of one at an end of a quad of the property.
  have hmem := mem_flatMapM _ _ out hout
  refine ⟨out, ?_, ?_, ?_, False.elim⟩
  · rw [Path.evaluate, hfollow]
    exact hout
  · intro other hother
    obtain ⟨b', hb', ys, hys, hy⟩ := (hmem other).mp hother
    obtain ⟨q, -, rfl⟩ := List.mem_map.mp hb'
    obtain ⟨k, hk, -⟩ := hinner (b.moved q.object)
    cases hys.symm.trans hk
    rw [List.eq_of_mem_replicate hy]
    rfl
  · rw [List.length_pos_iff_exists_mem]
    constructor
    · rintro ⟨other, hother⟩
      obtain ⟨b', hb', ys, hys, hy⟩ := (hmem other).mp hother
      obtain ⟨q, hq, rfl⟩ := List.mem_map.mp hb'
      obtain ⟨k, hk, hpos, -⟩ := hinner (b.moved q.object)
      cases hys.symm.trans hk
      obtain ⟨o, ho, hvalue⟩ := hsound q hq
      have hC := hpos.mp (Nat.pos_of_ne_zero (List.mem_replicate.mp hy).1)
      rw [Binding.moved, ho] at hC
      exact ⟨o, hvalue, hC⟩
    · rintro ⟨o, hvalue, hC⟩
      obtain ⟨q, hq, ho⟩ := hcomplete o hvalue
      obtain ⟨k, hk, hpos, -⟩ := hinner (b.moved q.object)
      rw [Binding.moved, ho] at hpos
      exact ⟨b.moved q.object, (hmem _).mpr ⟨b.moved q.object, List.mem_map.mpr ⟨q, hq, rfl⟩, _,
        hk, List.mem_replicate.mpr ⟨Nat.pos_iff_ne_zero.mp (hpos.mpr hC), rfl⟩⟩⟩

namespace GraphPattern

theorem clauses_isOneOf (store : QuadStore) (things : List Term) (others : GraphPattern)
    (cs : List Path) :
    (isOneOf things others).clauses store v = .ok cs ↔
      ∃ nodes, resolve store v things = .ok nodes ∧
        ∃ rest, others.clauses store v = .ok rest ∧ .isOneOf .here nodes :: rest = cs := by
  simp only [clauses, bind_eq_ok, pure_eq_ok]

theorem clauses_has (store : QuadStore) (name : String) (value : Term) (others : GraphPattern)
    (cs : List Path) :
    (has name value others).clauses store v = .ok cs ↔
      ∃ via, property store v name = .ok via ∧
        ∃ nodes, resolve store v [value] = .ok nodes ∧
          ∃ rest, others.clauses store v = .ok rest ∧
            .has .here .forward via (some nodes) :: rest = cs := by
  simp only [clauses, bind_eq_ok, pure_eq_ok]

theorem clauses_leadsTo (store : QuadStore) (name : String) (pattern others : GraphPattern)
    (cs : List Path) (h : (leadsTo name pattern others).clauses store v = .ok cs) :
    ∃ via, property store v name = .ok via ∧
      ∃ inner, pattern.clauses store v = .ok inner ∧
        ∃ rest, others.clauses store v = .ok rest ∧
          .whereAll (.follow .here (.one .forward) via) inner :: rest = cs := by
  simp only [clauses, bind_eq_ok] at h
  obtain ⟨via, hvia, h⟩ := h
  refine ⟨via, hvia, ?_⟩
  split at h
  · cases h
  · simpa only [bind_eq_ok, pure_eq_ok] using h

/-- Where a pattern has clauses, nothing in it is malformed. -/
theorem wellFormed_of_clauses (store : QuadStore) (pattern : GraphPattern) (cs : List Path)
    (h : pattern.clauses store v = .ok cs) : pattern.WellFormed := by
  induction pattern generalizing cs with
  | nothing => trivial
  | malformed fault => cases h
  | isOneOf things others ih =>
    obtain ⟨_, -, rest, hrest, -⟩ := (clauses_isOneOf store things others cs).mp h
    exact ih rest hrest
  | has name value others ih =>
    obtain ⟨_, -, _, -, rest, hrest, -⟩ := (clauses_has store name value others cs).mp h
    exact ih rest hrest
  | leadsTo name pattern others ihp iho =>
    obtain ⟨_, -, inner, hinner, rest, hrest, -⟩ := clauses_leadsTo store name pattern others cs h
    exact ⟨ihp inner hinner, iho rest hrest⟩

/-- The clauses of a pattern keep a match exactly if the conditions hold for its node. -/
theorem keeps_clauses (hi : g.Indexed) (hg : g.Holds quads) (pattern : GraphPattern)
    (cs : List Path) (h : pattern.clauses g.toStore v = .ok cs) (b : Binding) :
    Keeps g cs b (pattern.Holds quads v (g.table.termOf? b.node)) pattern.Flat := by
  induction pattern generalizing cs b with
  | nothing =>
    cases h
    exact ⟨1, rfl, by simp [Holds], fun _ => Nat.le_refl 1⟩
  | malformed fault => cases h
  | isOneOf things others ih =>
    obtain ⟨nodes, hnodes, rest, hrest, rfl⟩ := (clauses_isOneOf _ things others cs).mp h
    cases hnodes.symm.trans (resolve_toStore g v things)
    simpa [Holds, Flat] using keeps_cons _ rest b _ _ _ _ (repeats_isOneOf hg.consistent things b)
      (ih rest hrest b)
  | has name value others ih =>
    obtain ⟨via, hvia, nodes, hnodes, rest, hrest, rfl⟩ := (clauses_has _ name value others cs).mp h
    cases hvia.symm.trans (property_toStore g v name)
    cases hnodes.symm.trans (resolve_toStore g v [value])
    simpa [Holds, Flat] using keeps_cons _ rest b _ _ _ _ (repeats_has hi hg name value b)
      (ih rest hrest b)
  | leadsTo name pattern others ihp iho =>
    obtain ⟨via, hvia, inner, hinner, rest, hrest, rfl⟩ :=
      clauses_leadsTo _ name pattern others cs h
    cases hvia.symm.trans (property_toStore g v name)
    have hclause := repeats_leadsTo (v := v) hi hg name inner b
      (pattern.Holds quads v) _ (ihp inner hinner)
    simpa [Holds, Flat] using keeps_cons _ rest b _ _ _ _ hclause (iho rest hrest b)

end GraphPattern

/-- A step that asks for a pattern leaves every match as it is, and as often as there are ways to
meet the pattern: not at all if its node does not satisfy the pattern, and once at most if the
pattern speaks of no other nodes. -/
theorem Step.evaluate_matching [RegexEngine] (quads : List Quad) (hv : v.Idempotent)
    (source : Option Step)
    (pattern : List (String × Json)) (ambient seed) (start path : Path) (bs : List Binding)
    (hstart : compileSource (Graph.ofQuads quads).toStore source v ambient = .ok start)
    (hpath : (Step.matching source pattern).compile (Graph.ofQuads quads).toStore v ambient =
      .ok path)
    (hbs : start.evaluate (Graph.ofQuads quads).toStore seed = .ok bs) :
    ∃ k : Binding → Nat,
      path.evaluate (Graph.ofQuads quads).toStore seed =
        .ok (bs.flatMap fun b => List.replicate (k b) b) ∧
      ∀ b ∈ bs,
        (0 < k b ↔ Satisfies quads v pattern ((Graph.ofQuads quads).table.termOf? b.node)) ∧
        ((∀ member ∈ pattern, ValuesOnly member.2) → k b ≤ 1) := by
  obtain ⟨hi, hg⟩ := Graph.holds_ofQuads quads
  simp only [compile, hstart, bind_eq_ok, pure_eq_ok, Except.ok.injEq, exists_eq_left'] at hpath
  obtain ⟨cs, hcs, rfl⟩ := hpath
  have hclauses : (GraphPattern.ofMembers v pattern).clauses (Graph.ofQuads quads).toStore v =
      .ok cs := by
    unfold GraphPattern.compile at hcs
    split at hcs
    · cases hcs
    · exact hcs
  have hwell := GraphPattern.wellFormed_of_clauses _ _ cs hclauses
  have hkeeps := GraphPattern.keeps_clauses hi hg (GraphPattern.ofMembers v pattern) cs hclauses
  choose k hk hpos hle using hkeeps
  refine ⟨k, ?_, fun b _ => ⟨?_, fun hm => hle b (GraphPattern.flat_ofMembers pattern hm)⟩⟩
  · rw [Path.evaluate, hbs]
    exact flatMapM_of_forall _ _ bs fun b _ => hk b
  · rw [hpos b, GraphPattern.holds_ofMembers hv pattern hwell]

/-- Who knows somebody named B, under the standard vocabulary: one person, who knows two of them and
so is found twice. -/
theorem Step.evaluate_matching_two_acquaintances :
    let quads : List Quad := [
      .ofIris "alice" "http://schema.org/knows" "bob" "",
      .ofIris "alice" "http://schema.org/knows" "carol" "",
      ⟨.iri "bob", .iri "http://schema.org/name", .plain "B", none⟩,
      ⟨.iri "carol", .iri "http://schema.org/name", .plain "B", none⟩]
    let pattern := [("schema:knows", Json.object [("schema:name", .string "B")])]
    let store := (Graph.ofQuads quads).toStore
    ∃ path, (Step.matching none pattern).compile store .standard none = .ok path ∧
      path.evaluate store none = .ok [.start ⟨0⟩, .start ⟨0⟩] ∧
      Satisfies quads .standard pattern (some (.iri "alice")) := by
  intro quads pattern store
  have hwalk : (do
      let path ← ((Step.matching none pattern).compile store .standard none).toOption
      (path.evaluate store none).toOption) = some [.start ⟨0⟩, .start ⟨0⟩] := by
    decide +kernel
  have halice : (Graph.ofQuads quads).table.termOf? ⟨0⟩ = some (.iri "alice") := by
    decide +kernel
  cases hpath : (Step.matching none pattern).compile store .standard none with
  | error e => simp [hpath, Except.toOption] at hwalk
  | ok path =>
    cases hout : path.evaluate store none with
    | error e => simp [hpath, hout, Except.toOption] at hwalk
    | ok out =>
      simp only [hpath, hout, Except.toOption, Option.bind_eq_bind, Option.bind_some,
        Option.some.injEq] at hwalk
      subst hwalk
      obtain ⟨k, hk, hsat⟩ := evaluate_matching quads Vocabulary.idempotent_standard none pattern
        none none .all path _ rfl hpath rfl
      have hmem : Binding.start ⟨0⟩ ∈ [Binding.start ⟨0⟩, .start ⟨0⟩] := List.mem_cons_self
      rw [Except.ok.inj (hout.symm.trans hk)] at hmem
      obtain ⟨b, hb, hcopy⟩ := List.mem_flatMap.mp hmem
      obtain ⟨hpos, rfl⟩ := List.mem_replicate.mp hcopy
      have halice' := (hsat _ hb).1.mp (Nat.pos_of_ne_zero hpos)
      rw [Binding.start, halice] at halice'
      exact ⟨path, rfl, hout, halice'⟩

end QuadGraph
