import QuadGraph.Proofs.Query.Keeping
import QuadGraph.Proofs.Store.Answers

/-! When a query fails. Walks keep to the matches of a sound path, so what stops them is a failing
store or being canceled. -/
namespace QuadGraph

open Outcome

/-- Why a walk may be stopped: the store fails as `E` allows, which may be that it has lost the term
of a node, or the walk is canceled. -/
def QueryError.OfWalking (E : StoreError → Prop) (canceling : Prop) : QueryError → Prop
  | .configuration _ => False
  | .store e => E e
  | .resolution n => E (.unknownNode n)
  | .canceled => canceling

variable {known : NodeId → Prop} {E : StoreError → Prop} {canceling : Prop} {token : Token}

/-- A state in which all matches are within, and which was closed only as is allowed. -/
def WalkState.Safe (known : NodeId → Prop) (E : StoreError → Prop) (canceling : Prop) :
    WalkState → Prop
  | .unopened => True
  | .standing current rest => ∀ b ∈ current :: rest, b.Within known
  | .closed reason => ∀ e ∈ reason, QueryError.OfWalking E canceling e

namespace Walk

/-- A walk of a sound path over a store that answers, in a safe state. -/
structure Safe (known : NodeId → Prop) (E : StoreError → Prop) (canceling : Prop) (w : Walk) :
    Prop where
  answers : w.store.Answers known E
  path : w.path.Sound known false
  state : w.state.Safe known E canceling

theorem safe_start (store : QuadStore) (v : Vocabulary) (path : Path)
    (hs : store.Answers known E) (hp : path.Sound known false) :
    (start store v path).Safe known E canceling :=
  ⟨hs, hp, trivial⟩

theorem safe_fail (w : Walk) (e : QueryError) (h : w.Safe known E canceling)
    (he : QueryError.OfWalking E canceling e) : (w.fail e).Safe known E canceling := by
  refine ⟨h.answers, h.path, ?_⟩
  rintro _ ⟨⟩
  exact he

theorem safe_goTo (w : Walk) (found : List Binding) (h : w.Safe known E canceling)
    (hf : ∀ b ∈ found, b.Within known) : (w.goTo found).2.Safe known E canceling := by
  cases found with
  | nil => exact ⟨h.answers, h.path, nofun⟩
  | cons b rest => exact ⟨h.answers, h.path, hf⟩

theorem safe_advance (w : Walk) (h : w.Safe known E canceling)
    (hc : ∀ produced, token.canceledAt produced = true → canceling) :
    (w.advance token).2.Safe known E canceling := by
  have hstate := h.state
  unfold advance
  split
  · exact h
  · split
    · next hcanceled => exact w.safe_fail .canceled h (hc _ hcanceled)
    -- Only here is the path walked, and it is sound without a match to begin from.
    · have hfound := Path.evaluate_meets h.answers w.path false h.path none nofun nofun
      rw [← QuadStore.execute] at hfound
      split
      · next found hexec =>
        rw [hexec] at hfound
        exact w.safe_goTo found h hfound
      · next e hexec =>
        rw [hexec] at hfound
        exact w.safe_fail (.store e) h hfound
  · next b rest hstanding =>
    rw [hstanding] at hstate
    split
    · next hcanceled => exact w.safe_fail .canceled h (hc _ hcanceled)
    · exact w.safe_goTo rest h fun b' hb' => hstate b' (List.mem_cons_of_mem b hb')

/-- The match at which a safe walk stands is within. -/
theorem within_binding? (w : Walk) (h : w.Safe known E canceling) :
    ∀ b ∈ w.binding?, b.Within known := by
  have hstate := h.state
  unfold binding?
  split
  · next b rest hstanding =>
    rw [hstanding] at hstate
    rintro _ ⟨⟩
    exact hstate b List.mem_cons_self
  · exact nofun

/-- Reading the term of a known node stops a walk only where the store fails. -/
theorem safe_resolve (w : Walk) (n : NodeId) (h : w.Safe known E canceling) (hn : known n) :
    (w.resolve n).2.Safe known E canceling := by
  have hterm := h.answers.term n hn
  have htermOf := h.answers.termOf n hn
  unfold resolve
  split
  · exact h
  · next hnone =>
    rw [QuadStore.term, hnone] at hterm
    exact w.safe_fail (.resolution n) h hterm
  · next e herror =>
    rw [herror] at htermOf
    exact w.safe_fail (.store e) h htermOf

theorem known_of_shows (b : Binding) (n : NodeId) (hb : b.Within known) (h : b.Shows n) :
    known n := by
  rcases h with rfl | ⟨name, hn⟩
  · exact hb.node
  · exact hb.tags name n hn

theorem keeps_safe (hc : ∀ produced, token.canceledAt produced = true → canceling) :
    Keeps token (Safe known E canceling) := by
  constructor
  · exact fun w h => w.safe_advance h hc
  · intro w b n h hb hn
    exact w.safe_resolve n h (known_of_shows b n (w.within_binding? h b hb) hn)

/-- A safe walk was stopped only as is allowed. -/
theorem error_of_safe (w : Walk) (h : w.Safe known E canceling) :
    ∀ e ∈ w.error?, QueryError.OfWalking E canceling e := by
  have hstate := h.state
  unfold error?
  split
  · next reason hclosed =>
    rw [hclosed] at hstate
    exact hstate
  · exact nofun

end Walk

namespace Results

theorem collect_meets (r : Results) (h : r.walk.Safe known E canceling)
    (hc : ∀ produced, token.canceledAt produced = true → canceling) :
    Meets (QueryError.OfWalking E canceling) (fun _ => True) (r.collect token).1 := by
  have hlast := r.walk_drain (Walk.keeps_safe hc) h
  unfold collect
  simp only
  split
  · next e herror =>
    rw [error?_eq_walk] at herror
    exact Walk.error_of_safe _ hlast e herror
  · exact trivial

end Results

namespace Step

variable {store : QuadStore}

/-- Whatever a query makes of the matches, they are those of a sound path, and none has been asked
for. -/
theorem results_start_meets [RegexEngine] (hl : store.LooksUp known E) (v : Vocabulary)
    (step : Step) : Meets (QueryError.OfCompiling E)
      (fun r => ∃ path : Path, path.Sound known false ∧ r.walk = .start store v path)
      (step.results store v) := by
  have hsource (source : Option Step) := compileSource_meets source
    (fun s _ => s.compilesSoundly hl) v none false nofun
  unfold results
  split
  · next source shape =>
    refine meets_bind _ _ _ (hsource source) fun path hpath => ?_
    rw [meets_pure]
    cases shape with
    | select tags => exact ⟨path, hpath, rfl⟩
    | selectFirst tags => exact ⟨_, .limit hpath, rfl⟩
    | value => exact ⟨_, .limit hpath, rfl⟩
    | documents grouping => exact ⟨path, hpath, rfl⟩
    | count => exact ⟨path, hpath, rfl⟩
  · exact meets_bind _ _ _ (step.compilesSoundly hl v none false nofun) fun path hpath =>
      ⟨path, hpath, rfl⟩

theorem results_meets [RegexEngine] (hs : store.Answers known E) (hl : store.LooksUp known E)
    (v : Vocabulary) (step : Step) :
    Meets (QueryError.OfCompiling E) (fun r => r.walk.Safe known E canceling)
      (step.results store v) := by
  apply meets_imp _ (step.results_start_meets hl v)
  rintro r ⟨path, hpath, hr⟩
  rw [hr]
  exact Walk.safe_start store v path hs hpath

/-- A query over a graph in memory that is not canceled is malformed, which is known before
anything is walked, or it has all its results. -/
theorem execute_configuration_or_ok [RegexEngine] (quads : List Quad) (v : Vocabulary)
    (step : Step) :
    (∃ fault, step.results (Graph.ofQuads quads).toStore v = .error (.configuration fault) ∧
      step.execute (Graph.ofQuads quads).toStore v .live = .error (.configuration fault)) ∨
    (∃ results found, step.results (Graph.ofQuads quads).toStore v = .ok results ∧
      step.execute (Graph.ofQuads quads).toStore v .live = .ok found) := by
  have hcompiled : Meets (QueryError.OfCompiling fun _ => False)
      (fun r => r.walk.Safe (Graph.ofQuads quads).Knows (fun _ => False) False)
      (step.results (Graph.ofQuads quads).toStore v) :=
    step.results_meets (Graph.answers_ofQuads quads) (Graph.looksUp_ofQuads quads) v
  unfold execute
  cases hr : step.results (Graph.ofQuads quads).toStore v with
  | error e =>
    rw [hr] at hcompiled
    cases e with
    | configuration fault => exact Or.inl ⟨fault, rfl, rfl⟩
    | store e => exact hcompiled.elim
    | resolution n => exact hcompiled.elim
    | canceled => exact hcompiled.elim
  | ok results =>
    rw [hr] at hcompiled
    have hcollected : Meets (QueryError.OfWalking (fun _ => False) False) (fun _ => True)
        (results.collect .live).1 := results.collect_meets hcompiled nofun
    -- Nothing may stop the walk: the store cannot fail, and nobody cancels it.
    have hnever : ∀ e, QueryError.OfWalking (fun _ => False) False e → False := by
      intro e he
      cases e with
      | configuration fault => exact he
      | store e => exact he
      | resolution n => exact he
      | canceled => exact he
    cases hc : (results.collect .live).1 with
    | error e =>
      rw [hc] at hcollected
      exact (hnever e hcollected).elim
    | ok found => exact Or.inr ⟨results, found, rfl, hc⟩

end Step

end QuadGraph
