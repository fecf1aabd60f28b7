import QuadGraph.Proofs.Query.Gathering
import QuadGraph.Proofs.Query.Telling

/-! What is ahead of a walk: the matches still to come, and what is read at each of them. Where all
of it can be read, documents are made of it and of nothing else. -/
namespace QuadGraph

open Outcome

/-- What is read at a match. -/
def Binding.told (selected : List String) (store : QuadStore) (b : Binding) :
    Except QueryError Record := do
  return ⟨← store.read b.node, ← store.readAll (RecordWalk.pick selected b)⟩

theorem Binding.told_eq_ok (selected : List String) (store : QuadStore) (b : Binding)
    (r : Record) : b.told selected store = .ok r ↔
      store.read b.node = .ok r.subject ∧
        store.readAll (RecordWalk.pick selected b) = .ok r.tags := by
  obtain ⟨subject, tags⟩ := r
  simp only [told, bind_eq_ok, pure_eq_ok]
  constructor
  · rintro ⟨_, hsubject, _, htags, ⟨⟩⟩
    exact ⟨hsubject, htags⟩
  · rintro ⟨hsubject, htags⟩
    exact ⟨_, hsubject, _, htags, rfl⟩

/-- Reading does not look at the token. -/
theorem Binding.told_ne_canceled (selected : List String) (store : QuadStore) (b : Binding) :
    b.told selected store ≠ .error .canceled := by
  have hread (n : NodeId) : Meets (· ≠ QueryError.canceled) (fun _ => True) (store.read n) := by
    unfold QuadStore.read
    split
    · exact trivial
    · exact nofun
    · exact nofun
  have htold : Meets (· ≠ QueryError.canceled) (fun _ => True) (b.told selected store) := by
    refine meets_bind _ _ _ (hread b.node) fun _ _ => ?_
    have htags := meets_mapM (E := (· ≠ QueryError.canceled)) _ (fun _ => True)
      (RecordWalk.pick selected b) fun member _ =>
        meets_bind _ (fun t => pure (member.1, t)) _ (hread member.2) fun _ _ => trivial
    exact meets_bind _ _ _ htags fun _ _ => trivial
  intro h
  rw [h] at htold
  exact htold rfl

namespace Walk

/-- The matches still to come of a walk that is not canceled. -/
def ahead (w : Walk) : Except QueryError (List Binding) :=
  match w.state with
  | .unopened => (w.store.execute w.path).mapError .store
  | .standing _ rest => .ok rest
  | .closed none => .ok []
  | .closed (some e) => .error e

theorem advance_of_ahead (w : Walk) (found : List Binding) (h : w.ahead = .ok found) :
    w.advance .live = w.goTo found := by
  obtain ⟨store, vocabulary, path, state⟩ := w
  cases state with
  | unopened =>
    rw [ahead] at h
    cases hexec : store.execute path with
    | error e =>
      simp only [hexec] at h
      cases h
    | ok bindings =>
      simp only [hexec] at h
      cases h
      simp [advance, hexec]
  | standing b rest =>
    cases h
    rfl
  | closed reason =>
    cases reason with
    | some e => cases h
    | none =>
      cases h
      rfl

theorem advance_of_ahead_error (w : Walk) (e : QueryError) (h : w.ahead = .error e) :
    ∃ w', w.advance .live = (false, w') ∧ w'.error? = some e := by
  obtain ⟨store, vocabulary, path, state, produced⟩ := w
  cases state with
  | unopened =>
    rw [ahead] at h
    cases hexec : store.execute path with
    | ok bindings =>
      simp only [hexec] at h
      cases h
    | error e' =>
      simp only [hexec] at h
      cases h
      refine ⟨fail ⟨store, vocabulary, path, .unopened, produced⟩ (.store e'), ?_, rfl⟩
      simp [advance, hexec]
  | standing b rest => cases h
  | closed reason =>
    cases reason with
    | none => cases h
    | some e' =>
      cases h
      exact ⟨_, rfl, rfl⟩

end Walk

namespace RecordWalk

/-- What is read at the matches still to come. -/
def ahead (r : RecordWalk) : Except QueryError (List Record) := do
  (← r.walk.ahead).mapM (Binding.told r.selected r.walk.store)

/-- At a match, a document is pulled that tells what is read there, or nothing can be pulled. -/
theorem pull_of_advance (token : Token) (r : RecordWalk) (w : Walk) (b : Binding)
    (h : r.walk.advance token = (true, w)) (hb : w.binding? = some b) :
    r.pull token = match b.told r.selected w.store with
      | .ok record =>
        (some (Document.telling record.subject (record.entries w.vocabulary)), { r with walk := w })
      | .error e => (none, { r with walk := w.fail e }) := by
  let here : RecordWalk := { r with walk := w }
  have hadvance : r.advance token = (true, here) := by rw [advance, h]
  have hsubject := here.subject_eq_reading b hb
  have htags := here.tags_eq_reading b hb
  rw [pull, hadvance, Binding.told]
  simp only [hsubject]
  cases w.store.read b.node with
  | error e => rfl
  | ok t =>
    simp only [Walk.reading, Prod.map, id]
    rw [show ({ here with walk := here.walk } : RecordWalk) = here from rfl, htags]
    cases w.store.readAll (pick r.selected b) with
    | error e => rfl
    | ok tags =>
      simp only [Walk.reading, Prod.map, id]
      exact congrArg (fun doc => (some doc, here)) (Document.ofMatch_eq_telling w ⟨t, tags⟩)

/-- From matches that are still to come and can all be read, their documents are pulled. -/
theorem pullAll_of_goTo (r : RecordWalk) (found : List Binding) (records : List Record)
    (h : r.walk.advance .live = r.walk.goTo found)
    (hread : found.mapM (Binding.told r.selected r.walk.store) = .ok records) :
    ∃ last : RecordWalk,
      r.pullAll .live = (Document.each r.walk.vocabulary records, last) ∧ last.error? = none := by
  induction found generalizing r records with
  | nil =>
    cases hread
    refine ⟨{ r with walk := { r.walk with state := .closed none } }, ?_, rfl⟩
    apply r.pullAll_of_none
    rw [pull, advance, h]
    rfl
  | cons b rest ih =>
    rw [List.mapM_cons] at hread
    obtain ⟨record, hrecord, hrest⟩ := (bind_eq_ok _ _ _).mp hread
    obtain ⟨others, hothers, ⟨⟩⟩ := (bind_eq_ok _ _ _).mp hrest
    let here : RecordWalk := { r with walk := (r.walk.goTo (b :: rest)).2 }
    have hpull : r.pull .live =
        (some (Document.telling record.subject (record.entries r.walk.vocabulary)), here) := by
      rw [r.pull_of_advance .live here.walk b h rfl]
      change (match b.told r.selected r.walk.store with | .ok _ => _ | .error _ => _) = _
      rw [hrecord]
      rfl
    obtain ⟨last, hothers', hnone⟩ := ih here others rfl hothers
    refine ⟨last, ?_, hnone⟩
    rw [r.pullAll_of_some here _ hpull, hothers']
    rfl

theorem pullAll_of_ahead (r : RecordWalk) (records : List Record) (h : r.ahead = .ok records) :
    ∃ last : RecordWalk,
      r.pullAll .live = (Document.each r.walk.vocabulary records, last) ∧ last.error? = none := by
  obtain ⟨found, hfound, hread⟩ := (bind_eq_ok _ _ _).mp h
  exact r.pullAll_of_goTo found records (r.walk.advance_of_ahead found hfound) hread

end RecordWalk

end QuadGraph
