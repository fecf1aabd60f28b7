import QuadGraph.Proofs.Query.Ending

/-! How walks along documents end. Adjacent documents end with the matches, and the document that
was pending then is the last one, unless the walk was stopped. Documents by subject end when those
that are ready have been given out. -/
namespace QuadGraph

variable {token : Token}

namespace DocumentWalk

/-- A document is pending only at a match, and documents are ready only after all matches have come
up, without an error. Each belongs to one of the groupings. -/
structure Orderly (d : DocumentWalk) : Prop where
  pending : d.pending ≠ none → d.grouping = .adjacent ∧ d.records.walk.Standing
  undrained : d.drained = false → d.ready = []
  ready : d.ready ≠ [] → d.grouping = .bySubject ∧ d.records.walk.error? = none

/-- There is no document, and none will come. -/
structure Over (d : DocumentWalk) : Prop where
  current : d.current = none
  adjacent : d.grouping = .adjacent → d.records.walk.Closed ∧ d.pending = none
  bySubject : d.grouping = .bySubject → d.drained = true ∧ d.ready = []

theorem ready_of_adjacent (d : DocumentWalk) (hd : d.Orderly) (hg : d.grouping = .adjacent) :
    d.ready = [] := by
  by_contra hne
  cases hg.symm.trans (hd.ready hne).1

theorem pending_of_bySubject (d : DocumentWalk) (hd : d.Orderly) (hg : d.grouping = .bySubject) :
    d.pending = none := by
  by_contra hne
  cases hg.symm.trans (hd.pending hne).1

/-- A document that is complete was followed by a match, or was the last one before the end. -/
theorem nextAdjacent_cases (token : Token) (records : RecordWalk) (pending : Option Document) :
    let (found, pending', records') := nextAdjacent token records pending
    (pending' ≠ none → records'.walk.Standing) ∧ (found ≠ none → records'.walk.error? = none) ∧
      (found = none → pending' = none ∧ records'.walk.Closed) := by
  fun_induction nextAdjacent token records pending with
  | case1 records doc records' hpull ih => exact ih
  | case2 records doc records' hpull p hsame ih => exact ih
  | case3 records doc records' hpull p hother =>
    -- The match that begins another document is the one at which the walk stands now.
    have hstanding := records.standing_of_pull records' doc hpull
    exact ⟨fun _ => hstanding, fun _ => records'.walk.error?_of_standing hstanding,
      fun h => absurd h (Option.some_ne_none p)⟩
  | case4 records pending records' hpull =>
    -- The matches have ended, or the walk was stopped and what was pending is dropped.
    have hclosed := records.closed_of_pull records' hpull
    refine ⟨fun h => absurd rfl h, fun h => ?_, fun _ => ⟨rfl, hclosed⟩⟩
    split at h
    · exact absurd rfl h
    · next hnone => exact Option.not_isSome_iff_eq_none.mp hnone

theorem nextAdjacent_of_pull (records records' : RecordWalk) (pending : Option Document)
    (h : records.pull token = (none, records')) : nextAdjacent token records pending =
      (if records'.error?.isSome then none else pending, none, records') := by
  rw [nextAdjacent]
  split
  · next doc last hpull => cases h.symm.trans hpull
  · next last hpull =>
    cases h.symm.trans hpull
    rfl

theorem drain_of_pull (records records' : RecordWalk)
    (docs : Slots Term Document Term.compareKey) (h : records.pull token = (none, records')) :
    drain token records docs = (docs, records') := by
  rw [drain]
  split
  · next doc last hpull => cases h.symm.trans hpull
  · next last hpull =>
    cases h.symm.trans hpull
    rfl

theorem advance_adjacent (token : Token) (d : DocumentWalk) (h : d.grouping = .adjacent) :
    d.advance token =
      ((nextAdjacent token d.records d.pending).1.isSome,
        { d with
          records := (nextAdjacent token d.records d.pending).2.2
          pending := (nextAdjacent token d.records d.pending).2.1
          current := (nextAdjacent token d.records d.pending).1 }) := by
  rw [advance, h]

theorem advance_bySubject (token : Token) (d : DocumentWalk) (h : d.grouping = .bySubject) :
    d.advance token =
      (!(d.fill token).ready.isEmpty,
        { d.fill token with
          current := (d.fill token).ready.head?
          ready := (d.fill token).ready.tail }) := by
  rw [advance, h]

theorem fill_of_drained (d : DocumentWalk) (h : d.drained = true) : d.fill token = d := by
  rw [fill, if_pos h]

@[simp] theorem grouping_fill (d : DocumentWalk) : (d.fill token).grouping = d.grouping := by
  unfold fill
  split <;> rfl

@[simp] theorem pending_fill (d : DocumentWalk) : (d.fill token).pending = d.pending := by
  unfold fill
  split <;> rfl

@[simp] theorem drained_fill (d : DocumentWalk) : (d.fill token).drained = true := by
  unfold fill
  split
  · assumption
  · rfl

/-- Documents are ready after all matches have come up only if none of them failed. -/
theorem error?_of_ready_fill (d : DocumentWalk) (hd : d.Orderly)
    (h : (d.fill token).ready ≠ []) : (d.fill token).records.walk.error? = none := by
  unfold fill at h ⊢
  split at h
  · next hdrained => exact (if_pos hdrained) ▸ (hd.ready h).2
  · next hdrained =>
    rw [if_neg hdrained]
    simp only at h ⊢
    split at h
    · exact absurd (hd.undrained (Bool.not_eq_true _ ▸ hdrained)) h
    · next hnone => exact Option.not_isSome_iff_eq_none.mp hnone

theorem orderly_advance (d : DocumentWalk) (hd : d.Orderly) : (d.advance token).2.Orderly := by
  cases hg : d.grouping with
  | adjacent =>
    have hnext := nextAdjacent_cases token d.records d.pending
    have hready := d.ready_of_adjacent hd hg
    rw [d.advance_adjacent token hg]
    exact ⟨fun h => ⟨hg, hnext.1 h⟩, fun _ => hready, fun h => absurd hready h⟩
  | bySubject =>
    have hpending := d.pending_of_bySubject hd hg
    rw [d.advance_bySubject token hg]
    refine ⟨fun h => ?_, fun h => ?_, fun h => ?_⟩
    · simp [hpending] at h
    · simp at h
    · refine ⟨by simpa using hg, d.error?_of_ready_fill hd fun hnil => ?_⟩
      simp [hnil] at h

theorem over_of_advance (d : DocumentWalk) (h : (d.advance token).1 = false) :
    (d.advance token).2.Over := by
  cases hg : d.grouping with
  | adjacent =>
    have hnext := nextAdjacent_cases token d.records d.pending
    rw [d.advance_adjacent token hg] at h ⊢
    have hnone := Option.not_isSome_iff_eq_none.mp (Bool.not_eq_true _ ▸ h)
    refine ⟨hnone, fun _ => (hnext.2.2 hnone).symm, fun h => ?_⟩
    cases hg.symm.trans h
  | bySubject =>
    rw [d.advance_bySubject token hg] at h ⊢
    have hnil : (d.fill token).ready = [] := by simpa using h
    refine ⟨by simp [hnil], fun h => ?_, fun _ => ?_⟩
    · cases hg.symm.trans ((grouping_fill d).symm.trans h)
    · simp [hnil]

theorem advance_of_over (d : DocumentWalk) (h : d.Over) :
    (d.advance token).1 = false ∧ (d.advance token).2.Over := by
  have hfalse : (d.advance token).1 = false := by
    cases hg : d.grouping with
    | adjacent =>
      obtain ⟨hclosed, hpending⟩ := h.adjacent hg
      have hpull : d.records.pull token = (none, d.records) := d.records.pull_of_closed hclosed
      rw [d.advance_adjacent token hg, nextAdjacent_of_pull _ _ _ hpull, hpending]
      simp
    | bySubject =>
      obtain ⟨hdrained, hready⟩ := h.bySubject hg
      rw [d.advance_bySubject token hg, d.fill_of_drained hdrained, hready]
      rfl
  exact ⟨hfalse, d.over_of_advance hfalse⟩

/-- A document is gone to only if no match before or inside of it failed. -/
theorem error?_of_advance (d : DocumentWalk) (hd : d.Orderly)
    (h : (d.advance token).1 = true) : (d.advance token).2.error? = none := by
  cases hg : d.grouping with
  | adjacent =>
    have hnext := nextAdjacent_cases token d.records d.pending
    rw [d.advance_adjacent token hg] at h ⊢
    exact hnext.2.1 (Option.isSome_iff_ne_none.mp h)
  | bySubject =>
    rw [d.advance_bySubject token hg] at h ⊢
    exact d.error?_of_ready_fill hd (by simpa using h)

theorem error?_advance (d : DocumentWalk) (e : QueryError) (h : d.error? = some e) :
    (d.advance token).2.error? = some e := by
  have hpull : d.records.pull token = (none, d.records) :=
    d.records.pull_of_closed (d.records.walk.closed_of_error e h)
  cases hg : d.grouping with
  | adjacent =>
    rw [d.advance_adjacent token hg, nextAdjacent_of_pull _ _ _ hpull]
    exact h
  | bySubject =>
    rw [d.advance_bySubject token hg]
    unfold fill
    split
    · exact h
    · rw [drain_of_pull _ _ _ hpull]
      exact h

theorem current_of_advance (d : DocumentWalk) (h : (d.advance token).1 = true) :
    (d.advance token).2.current ≠ none := by
  cases hg : d.grouping with
  | adjacent =>
    rw [d.advance_adjacent token hg] at h ⊢
    exact Option.isSome_iff_ne_none.mp h
  | bySubject =>
    rw [d.advance_bySubject token hg] at h ⊢
    simpa using h

end DocumentWalk

end QuadGraph
