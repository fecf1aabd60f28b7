import QuadGraph.Proofs.Query.Safety
import QuadGraph.Proofs.Query.Session
import QuadGraph.Regex.Basic

/-! Where the reasons come from for which a query fails. Compiling looks terms up and passes on what
the store answers; walking asks the store about nodes and passes on what it answers, and the only
errors made on the way are about nodes whose terms the store does not have. -/
namespace QuadGraph

open Outcome

/-- An error with which a store answers one of the questions that are asked in walking. -/
def QuadStore.Raises (store : QuadStore) (e : StoreError) : Prop :=
  store.nodes = .error e ∨ (∃ position n, store.quadsBy position n = .error e) ∨
    ∃ n, store.termOf n = .error e

/-- Why walking a path fails: the store does, or it has no term for a node. -/
def QuadStore.FailsWith (store : QuadStore) (e : StoreError) : Prop :=
  store.Raises e ∨ ∃ n, e = .unknownNode n ∧ store.termOf n = .ok none

/-- A reason that the store has given, or that somebody gave by canceling. -/
def QueryError.Accounted (store : QuadStore) (canceling : Prop) : QueryError → Prop
  | .configuration _ => False
  | .store e => store.FailsWith e
  | .resolution n => store.termOf n = .ok none
  | .canceled => canceling

theorem QuadStore.answers_failsWith (store : QuadStore) :
    store.Answers (fun _ => True) store.FailsWith := by
  constructor
  · cases hnodes : store.nodes with
    | ok found => exact fun _ _ => trivial
    | error e => exact Or.inl (Or.inl hnodes)
  · intro position n _
    cases hquads : store.quadsBy position n with
    | ok found => exact fun _ _ => ⟨trivial, trivial, trivial⟩
    | error e => exact Or.inl (Or.inr (Or.inl ⟨position, n, hquads⟩))
  · intro n _
    cases hterm : store.termOf n with
    | ok t => exact trivial
    | error e => exact Or.inl (Or.inr (Or.inr ⟨n, hterm⟩))
  · intro n _
    rw [term]
    cases hterm : store.termOf n with
    | error e => exact Or.inl (Or.inr (Or.inr ⟨n, hterm⟩))
    | ok t =>
      cases t with
      | none => exact Or.inr ⟨n, rfl, hterm⟩
      | some t => exact trivial

theorem QuadStore.looksUp_nodeOf (store : QuadStore) :
    store.LooksUp (fun _ => True) fun e => ∃ t, store.nodeOf t = .error e := by
  intro t
  cases ht : store.nodeOf t with
  | ok found => exact fun _ _ => trivial
  | error e => exact ⟨t, ht⟩

namespace Walk

variable {store : QuadStore} {path : Path} {canceling : Prop}

/-- A walk of a path over a store, stopped, if at all, for a reason that is accounted for. -/
structure Accounted (store : QuadStore) (path : Path) (canceling : Prop) (w : Walk) : Prop where
  store_eq : w.store = store
  path_eq : w.path = path
  reason : ∀ e ∈ w.error?, e.Accounted store canceling

theorem accounted_fail (w : Walk) (e : QueryError) (h : w.Accounted store path canceling)
    (he : e.Accounted store canceling) : (w.fail e).Accounted store path canceling := by
  refine ⟨h.store_eq, h.path_eq, ?_⟩
  rintro _ ⟨⟩
  exact he

theorem accounted_goTo (w : Walk) (found : List Binding) (h : w.Accounted store path canceling) :
    (w.goTo found).2.Accounted store path canceling := by
  cases found with
  | nil => exact ⟨h.store_eq, h.path_eq, nofun⟩
  | cons b rest => exact ⟨h.store_eq, h.path_eq, nofun⟩

/-- Going on in a walk and reading terms account for every reason they stop it for, given that
walking the path does. -/
theorem keeps_accounted {token : Token}
    (hpath : Meets store.FailsWith (fun _ => True) (store.execute path))
    (hc : ∀ produced, token.canceledAt produced = true → canceling) :
    Keeps token (Accounted store path canceling) := by
  constructor
  · intro w h
    unfold advance
    split
    · exact h
    · split
      · next hcanceled => exact w.accounted_fail _ h (hc _ hcanceled)
      · rw [h.store_eq, h.path_eq]
        split
        · next found _ => exact w.accounted_goTo found h
        · next e hexec =>
          rw [hexec] at hpath
          exact w.accounted_fail _ h hpath
    · split
      · next hcanceled => exact w.accounted_fail _ h (hc _ hcanceled)
      · exact w.accounted_goTo _ h
  · intro w b n h _ _
    unfold resolve
    rw [h.store_eq]
    split
    · exact h
    · next hnone => exact w.accounted_fail _ h hnone
    · next e herror => exact w.accounted_fail _ h (Or.inl (Or.inr (Or.inr ⟨n, herror⟩)))

end Walk

namespace Session

variable {store : QuadStore} {path : Path} {canceling : Prop}

/-- Results whose walk is accounted for, and which have been canceled only if somebody did so. -/
structure Accounted (store : QuadStore) (path : Path) (canceling : Prop) (s : Session) : Prop where
  walk : s.results.walk.Accounted store path canceling
  canceled (produced : Nat) : s.token.canceledAt produced = true → canceling

theorem accounted_serve (s : Session)
    (hpath : Meets store.FailsWith (fun _ => True) (store.execute path))
    (h : s.Accounted store path canceling) (request : Request)
    (hr : request = .cancel → canceling) :
    (∀ e, (s.serve request).1 = .error (some e) → e.Accounted store canceling) ∧
      (s.serve request).2.Accounted store path canceling := by
  have hkeeps := Walk.keeps_accounted hpath h.canceled
  cases request with
  | next => exact ⟨nofun, s.results.walk_advance hkeeps h.walk, h.canceled⟩
  | result => exact ⟨nofun, s.results.walk_result hkeeps h.walk, h.canceled⟩
  | error =>
    refine ⟨?_, h⟩
    intro e he
    have hreason : s.results.error? = some e := Answer.error.inj he
    rw [Results.error?_eq_walk] at hreason
    exact h.walk.reason e hreason
  | cancel => exact ⟨nofun, h.walk, fun _ _ => hr rfl⟩

theorem accounted_run (s : Session)
    (hpath : Meets store.FailsWith (fun _ => True) (store.execute path))
    (h : s.Accounted store path canceling) (requests : List Request)
    (hr : .cancel ∈ requests → canceling) :
    (∀ e, .error (some e) ∈ (s.run requests).1 → e.Accounted store canceling) ∧
      (s.run requests).2.Accounted store path canceling := by
  have hrun := run_meets (Accounted store path canceling)
    (fun a => ∀ e, a = .error (some e) → e.Accounted store canceling) requests
    (fun s hs request hmem => s.accounted_serve hpath hs request fun heq => hr (heq ▸ hmem)) s h
  exact ⟨fun e hmem => hrun.1 _ hmem e rfl, hrun.2⟩

theorem accounted_collect (s : Session)
    (hpath : Meets store.FailsWith (fun _ => True) (store.execute path))
    (h : s.Accounted store path canceling) (e : QueryError)
    (he : (s.results.collect s.token).1 = .error e) : e.Accounted store canceling := by
  have hkeeps := Walk.keeps_accounted hpath h.canceled
  have hlast := s.results.walk_drain hkeeps h.walk
  unfold Results.collect at he
  simp only at he
  split at he
  · next reason hreason =>
    rw [Results.error?_eq_walk] at hreason
    cases he
    exact hlast.reason _ hreason
  · cases he

end Session

namespace Step

/-- A query that cannot be compiled is malformed, or the store has failed to look a term up. Once it
is compiled, it is never malformed; however its results are walked, they are stopped only if
somebody cancels them or if the store fails or has no term for a node, and the reason tells this
failure or this node. -/
theorem results_accounted [RegexEngine] (store : QuadStore) (v : Vocabulary) (step : Step) :
    (∀ e, step.results store v = .error e → (∃ fault, e = .configuration fault) ∨
      ∃ t failure, store.nodeOf t = .error failure ∧ e = .store failure) ∧
    ∀ r, step.results store v = .ok r → ∀ (token : Token) (requests : List Request),
      let s := (Session.run ⟨r, token⟩ requests).2
      let canceling := (∃ produced, token.canceledAt produced = true) ∨ .cancel ∈ requests
      (∀ e, .error (some e) ∈ (Session.run ⟨r, token⟩ requests).1 →
        e.Accounted store canceling) ∧
      ∀ e, (s.results.collect s.token).1 = .error e → e.Accounted store canceling := by
  have hcompiled := step.results_start_meets store.looksUp_nodeOf v
  constructor
  · intro e he
    rw [he] at hcompiled
    cases e with
    | configuration fault => exact Or.inl ⟨fault, rfl⟩
    | store failure =>
      obtain ⟨t, ht⟩ := hcompiled
      exact Or.inr ⟨t, failure, ht, rfl⟩
    | resolution n => exact hcompiled.elim
    | canceled => exact hcompiled.elim
  · intro r hr token requests s canceling
    rw [hr] at hcompiled
    obtain ⟨path, hsound, hstart⟩ := hcompiled
    -- The path begins by itself, so walking it never lacks a match to begin from.
    have hpath : Meets store.FailsWith (fun _ => True) (store.execute path) := by
      have hfound := Path.evaluate_meets store.answers_failsWith path false hsound none nofun nofun
      exact meets_imp _ hfound fun _ _ => trivial
    have hopen : (Session.mk r token).Accounted store path canceling := by
      refine ⟨?_, fun produced h => Or.inl ⟨produced, h⟩⟩
      rw [hstart]
      exact ⟨rfl, rfl, nofun⟩
    obtain ⟨hanswers, hlast⟩ := Session.accounted_run _ hpath hopen requests Or.inr
    exact ⟨hanswers, fun e he => s.accounted_collect hpath hlast e he⟩

/-- Ordering nodes reads their terms, one of which has been lost: the walk is stopped for that node.
Where the store cannot look terms up, the query is not even compiled. -/
theorem results_accounted_lost_node :
    let g := Graph.ofQuads [.ofIris "alice" "likes" "bob" ""]
    let losing := (Faults.mk false false false false [] [⟨2⟩]).apply g.toStore
    let failing := (Faults.mk true false false false [] []).apply g.toStore
    let lost : QueryError := .store (.unknownNode ⟨2⟩)
    let refused : QueryError := .store (.backend "lookup unavailable")
    (∃ r, (order none).results losing .standard = .ok r ∧ (r.collect .live).1 = .error lost ∧
      lost.Accounted losing
        ((∃ produced, Token.live.canceledAt produced = true) ∨ .cancel ∈ ([] : List Request))) ∧
    (vertex [.iri "alice"]).results failing .standard = .error refused ∧
    ((∃ fault, refused = .configuration fault) ∨
      ∃ t failure, failing.nodeOf t = .error failure ∧ refused = .store failure) := by
  intro g losing failing lost refused
  have hcompiled : (order none).results losing .standard =
      .ok (.values (.start losing .standard (.order .all))) := by
    with_unfolding_all rfl
  have hlost :
      ((Results.values (.start losing .standard (.order .all))).collect .live).1 = .error lost := by
    with_unfolding_all rfl
  have hrefused : (vertex [.iri "alice"]).results failing .standard = .error refused := by
    with_unfolding_all rfl
  refine ⟨⟨_, hcompiled, hlost, ?_⟩, hrefused, ?_⟩
  · exact ((results_accounted losing .standard _).2 _ hcompiled .live []).2 lost hlost
  · exact (results_accounted failing .standard _).1 refused hrefused

end Step

end QuadGraph
