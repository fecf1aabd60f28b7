import QuadGraph.Proofs.Step.Naming
import QuadGraph.Proofs.Store.Answers
import QuadGraph.Regex.Basic

/-! Returning to the step that gave a name last. The step is found in the chain of steps, but the
way back to it leads through the name. So it is where that step stood if no step in between gives
the name again. -/
namespace QuadGraph

open Outcome

namespace Step

/-- A step, or all nodes if there is none, finds some matches by itself. -/
def Finds [RegexEngine] (store : QuadStore) (v : Vocabulary) (s : Option Step)
    (found : List Binding) : Prop :=
  ∃ p, compileSource store s v none = .ok p ∧ store.execute p = .ok found

theorem chain_eq (s : Step) :
    s.chain = s :: match s.source? with
      | none => []
      | some source => source.chain := by
  rw [chain]
  split <;> simp_all

variable {store : QuadStore} {saved : List String} {between before : List Step}
  {g : Option Step} {name : String}

/-- After a name is given, and as long as no step gives it again, it stands for nodes that were
found where it was given. -/
theorem node_of_tag [RegexEngine] (hsaved : store.Saves saved) (f : Step) (v : Vocabulary)
    (p : Path) (hchain : f.chain = between ++ named g name :: before)
    (hcontext : ∀ s ∈ between, ¬ s.isContext)
    (hkept : ∀ s ∈ between, name ∉ s.givenHere saved)
    (hp : f.compile store v none = .ok p) :
    ∃ q, compileSource store g v none = .ok q ∧
      ∀ walked, store.execute p = .ok walked → ∀ b ∈ walked, ∀ n, b.tags[name]? = some n →
        ∃ found, store.execute q = .ok found ∧ ∃ c ∈ found, c.node = n := by
  -- By induction on the steps in between: what the name stands for after one of them, it stood for
  -- in some match before.
  induction between generalizing f p with
  | nil =>
    rw [chain_eq] at hchain
    obtain ⟨rfl, -⟩ := List.cons.inj hchain
    obtain ⟨q, hq, ⟨⟩⟩ := (bind_eq_ok _ _ p).mp hp
    refine ⟨q, hq, fun walked hwalked b hb n hn => ?_⟩
    obtain ⟨found, hfound, ⟨⟩⟩ := (bind_eq_ok _ _ walked).mp hwalked
    obtain ⟨c, hc, rfl⟩ := List.mem_map.mp hb
    rw [Binding.getElem?_tagged, if_pos rfl] at hn
    exact ⟨found, hfound, c, hc, Option.some.inj hn⟩
  | cons s rest ih =>
    rw [List.forall_mem_cons] at hcontext hkept
    rw [chain_eq] at hchain
    obtain ⟨rfl, hrest⟩ := List.cons.inj hchain
    obtain ⟨q, hq, hinherits⟩ := inherits_source hsaved f v none p nofun hp
    cases hsource : f.source? with
    | none =>
      rw [hsource] at hrest
      exact absurd hrest (by simp)
    | some source =>
      rw [hsource] at hq hrest
      rw [sourceVocabulary_of_not_isContext f v hcontext.1] at hq
      obtain ⟨path, hpath, hnodes⟩ := ih source q hrest hcontext.2 hkept.2 hq
      refine ⟨path, hpath, fun walked hwalked b hb n hn => ?_⟩
      obtain ⟨c, hc, hcn⟩ := hinherits none walked hwalked b hb name hkept.1 n hn
      cases hc with
      | seed h => cases h
      | source hfound hmem => exact hnodes _ hfound c hmem n hcn

theorem exists_execute_source [RegexEngine] (quads : List Quad) (v : Vocabulary) (s : Option Step)
    (p : Path) (h : compileSource (Graph.ofQuads quads).toStore s v none = .ok p) :
    ∃ found, (Graph.ofQuads quads).toStore.execute p = .ok found := by
  cases s with
  | none =>
    cases h
    exact ⟨_, rfl⟩
  | some s => exact (exists_execute quads v s p h).2

/-- Without a name the way back leads to the name that was given last. -/
theorem compile_back [RegexEngine] (f : Step) (v : Vocabulary) (p : Path)
    (hchain : f.chain = between ++ named g name :: before)
    (hnearest : ∀ s ∈ between, s.givenName? = none) :
    (back (some f) none).compile store v none = .ok p ↔
      ∃ q, f.compile store v none = .ok q ∧ p = .back q (some name) := by
  have hname : f.chain.findSome? givenName? = some name := by
    rw [hchain, List.findSome?_append, List.findSome?_eq_none_iff.mpr hnearest]
    rfl
  have hcompile : (back (some f) none).compile store v none =
      f.compile store v none >>= fun q => pure (.back q (some name)) := by
    rw [← hname]
    rfl
  rw [hcompile, bind_eq_ok]
  exact exists_congr fun q => and_congr_right fun _ => (pure_eq_ok _ p).trans eq_comm

/-- Going back without a name returns to where the step stood that gave a name last. Over a graph
in memory there is a result, every match of the steps before that has the name is led back, and it
comes to a node that was found where the name was given, if no step in between may give the name
anew. -/
theorem back_returns [RegexEngine] (quads : List Quad) (v : Vocabulary) (f : Step) (g : Option Step)
    (name : String) (between before : List Step) (p : Path)
    (hcompile : (back (some f) none).compile (Graph.ofQuads quads).toStore v none = .ok p)
    (hchain : f.chain = between ++ named g name :: before)
    (hnearest : ∀ s ∈ between, s.givenName? = none) (hcontext : ∀ s ∈ between, ¬ s.isContext)
    (hkept : ∀ s ∈ between, name ∉ s.givenHere (quads.map (·.predicate.tagName))) :
    let store := (Graph.ofQuads quads).toStore
    ∃ found walked out, Finds store v g found ∧ Finds store v (some f) walked ∧
      store.execute p = .ok out ∧ out.map (·.node) = walked.filterMap (·.tags[name]?) ∧
      ∀ b ∈ out, ∃ c ∈ found, c.node = b.node := by
  intro store
  obtain ⟨q, hq, rfl⟩ := (compile_back f v p hchain hnearest).mp hcompile
  obtain ⟨path, hpath, hnodes⟩ :=
    node_of_tag (Graph.saves_ofQuads quads) f v q hchain hcontext hkept hq
  obtain ⟨found, hfound⟩ := exists_execute_source quads v g path hpath
  obtain ⟨walked, hwalked⟩ := exists_execute_source quads v (some f) q hq
  let out := walked.filterMap fun b => b.tags[name]?.map b.moved
  have hout : store.execute (.back q (some name)) = .ok out := by
    rw [QuadStore.execute, Path.evaluate, show q.evaluate store none = .ok walked from hwalked]
    rfl
  refine ⟨found, walked, out, ⟨path, hpath, hfound⟩, ⟨q, hq, hwalked⟩, hout, ?_, ?_⟩
  · rw [List.map_filterMap]
    refine List.filterMap_congr fun b _ => ?_
    rw [Option.map_map]
    exact Option.map_id'
  · intro b hb
    obtain ⟨c, hc, hmoved⟩ := List.mem_filterMap.mp hb
    obtain ⟨n, hn, rfl⟩ := Option.map_eq_some_iff.mp hmoved
    obtain ⟨found', hfound', hnode⟩ := hnodes walked hwalked c hc n hn
    obtain rfl : found' = found := Except.ok.inj (hfound'.symm.trans hfound)
    exact hnode

/-- Somebody liked and whom they know: other names are given after the one of the liked person, and
the way back leads to that person. -/
theorem back_returns_liked :
    let quads := [Quad.ofIris "alice" "likes" "bob" "", Quad.ofIris "bob" "knows" "carol" ""]
    let store := (Graph.ofQuads quads).toStore
    let start : Step := .named none "start"
    let liked : Step := .visit (some start) (.one .forward) [.property "likes"]
    let middle : Step := .named (some liked) "middle"
    let known : Step := .visit (some middle) (.one .forward) [.property "knows"]
    let friend : Step := .optional (some known) (.named (some .placeholder) "friend")
    let f : Step := .properties (some friend) .backward []
    let between := [f, friend, known]
    f.chain = between ++ middle :: [liked, start] ∧ (∀ s ∈ between, s.givenName? = none) ∧
      (∀ s ∈ between, ¬ s.isContext) ∧
      (∀ s ∈ between, "middle" ∉ s.givenHere (quads.map (·.predicate.tagName))) ∧
      ∃ found p out, Finds store .empty (some liked) found ∧
        (back (some f) none).compile store .empty none = .ok p ∧ store.execute p = .ok out ∧
        out.map (·.node) = [⟨2⟩] ∧ ∀ b ∈ out, ∃ c ∈ found, c.node = b.node := by
  intro quads store start liked middle known friend f between
  have hchain : f.chain = between ++ middle :: [liked, start] := by
    simp [f, between, friend, known, middle, liked, start, chain_eq, source?]
  have hnearest : ∀ s ∈ between, s.givenName? = none := by
    simp [f, between, friend, known, givenName?]
  have hcontext : ∀ s ∈ between, ¬ s.isContext := by
    simp [f, between, friend, known, isContext]
  have hkept : ∀ s ∈ between, "middle" ∉ s.givenHere (quads.map (·.predicate.tagName)) := by
    decide +kernel
  obtain ⟨q, hq⟩ : ∃ q, f.compile store .empty none = .ok q := ⟨_, rfl⟩
  have hback := (compile_back f .empty (.back q (some "middle")) hchain hnearest).mpr ⟨q, hq, rfl⟩
  obtain ⟨found, walked, out, hfound, -, hout, -, hnodes⟩ := back_returns quads .empty f
    (some liked) "middle" between [liked, start] _ hback hchain hnearest hcontext hkept
  refine ⟨hchain, hnearest, hcontext, hkept, found, _, out, hfound, hback, hout, ?_, hnodes⟩
  have hwalk : (do
      let p ← ((back (some f) none).compile store .empty none).toOption
      let out ← (store.execute p).toOption
      return out.map (·.node)) = some [⟨2⟩] := by decide +kernel
  rw [hback] at hwalk
  simp only [Except.toOption, Option.bind_eq_bind, Option.bind_some, store, hout] at hwalk
  exact Option.some.inj hwalk

/-- Somebody whose properties are named as they were: the way back leads to a property. -/
theorem back_returns_to_property :
    let store := (Graph.ofQuads [.ofIris "alice" "likes" "bob" ""]).toStore
    let given : Step := .vertex [.iri "alice"]
    let f : Step := .propertyNamesAs (some (.named (some given) "x")) .forward "x"
    let found (s : Step) := do
      let p ← (s.compile store .empty none).toOption
      let out ← (store.execute p).toOption
      return out.map (·.node)
    f.chain = [f] ++ .named (some given) "x" :: [given] ∧ f.givenName? = none ∧ ¬ f.isContext ∧
      found given = some [⟨0⟩] ∧ found (.back (some f) none) = some [⟨1⟩] := by
  intro store given f found
  have hchain : f.chain = [f] ++ .named (some given) "x" :: [given] := by
    simp [f, given, chain_eq, source?]
  exact ⟨hchain, by decide +kernel, by decide +kernel, by decide +kernel, by decide +kernel⟩

end Step

end QuadGraph
