import QuadGraph.Proofs.Query.Session

/-! What canceling stops. A canceled walk comes to no match, so everything that is made from matches
one by one stops with it. Documents by subject are made from all matches at once: those that are
ready when the walk is canceled are still given out. -/
namespace QuadGraph

namespace Walk

theorem advance_canceled (w : Walk) :
    w.advance .canceled = (false, w) ∧ w.Closed ∨
      w.advance .canceled = (false, w.fail .canceled) := by
  unfold advance
  split
  · next reason hclosed => exact Or.inl ⟨rfl, reason, hclosed⟩
  · exact Or.inr rfl
  · exact Or.inr rfl

theorem advance_canceled_of_open (w : Walk) (h : ¬ w.Closed) :
    w.advance .canceled = (false, w.fail .canceled) := by
  rcases w.advance_canceled with ⟨-, hclosed⟩ | hfail
  · exact absurd hclosed h
  · exact hfail

theorem not_closed_of_standing (w : Walk) (h : w.Standing) : ¬ w.Closed := by
  intro hclosed
  obtain ⟨b, hb⟩ := h
  cases hb.symm.trans (w.binding?_of_closed hclosed)

theorem not_closed_of_unopened (w : Walk) (h : w.state = .unopened) : ¬ w.Closed := by
  rintro ⟨reason, hclosed⟩
  cases h.symm.trans hclosed

theorem exhaust_canceled (w : Walk) (h : ¬ w.Closed) :
    w.exhaust .canceled = (0, w.fail .canceled) := by
  have hadvance := w.advance_canceled_of_open h
  rw [exhaust]
  split
  · next w' hstop => cases hadvance.symm.trans hstop; rfl
  · next w' hcome => cases hadvance.symm.trans hcome

end Walk

namespace RecordWalk

theorem pull_canceled_of_open (r : RecordWalk) (h : ¬ r.walk.Closed) :
    r.pull .canceled = (none, { r with walk := r.walk.fail .canceled }) := by
  rw [pull, advance, r.walk.advance_canceled_of_open h]

theorem pull_canceled (r : RecordWalk) : ∃ r', r.pull .canceled = (none, r') := by
  by_cases hclosed : r.walk.Closed
  · exact ⟨r, r.pull_of_closed hclosed⟩
  · exact ⟨_, r.pull_canceled_of_open hclosed⟩

end RecordWalk

/-- Matches that have not been counted are not counted any more. -/
theorem CountWalk.advance_canceled (c : CountWalk) (h : c.Orderly) :
    (c.advance .canceled).1 = false := by
  cases hc : c.emitted with
  | true => rw [c.advance_of_emitted hc]
  | false =>
    -- The walk has not been opened, so canceling stops it before its matches are counted.
    have hopen := c.walk.not_closed_of_unopened (h hc).2
    rcases c.advance_cases .canceled hc with ⟨hnone, -⟩ | ⟨-, hadvance⟩
    · rw [c.walk.exhaust_canceled hopen] at hnone
      cases hnone
    · rw [hadvance]

namespace DocumentWalk

/-- A pending document is dropped, since the matches that might belong to it are not looked at. -/
theorem nextAdjacent_canceled (records : RecordWalk) (pending : Option Document)
    (h : pending ≠ none → records.walk.Standing) :
    (nextAdjacent .canceled records pending).1 = none := by
  by_cases hpending : pending = none
  · obtain ⟨records', hpull⟩ := records.pull_canceled
    rw [nextAdjacent_of_pull _ _ _ hpull, hpending]
    exact ite_self none
  · -- The walk stands at a match, so it is canceling that stops it.
    have hopen := records.walk.not_closed_of_standing (h hpending)
    rw [nextAdjacent_of_pull _ _ _ (records.pull_canceled_of_open hopen)]
    rfl

theorem drain_canceled (records : RecordWalk) (docs : Slots Term Document Term.compareKey) :
    (drain .canceled records docs).1 = docs := by
  obtain ⟨records', hpull⟩ := records.pull_canceled
  rw [drain_of_pull _ _ _ hpull]

/-- Canceling before all matches have come up leaves no documents, and later it leaves those that
are ready. -/
theorem ready_fill_canceled (d : DocumentWalk) (h : d.Orderly) :
    (d.fill .canceled).ready = d.ready := by
  unfold fill
  split
  · rfl
  · next hdrained =>
    have hready : d.ready = [] := h.undrained (Bool.not_eq_true _ ▸ hdrained)
    simp only [drain_canceled, Slots.items_empty, hready, ite_self]

theorem advance_canceled_iff (d : DocumentWalk) (h : d.Orderly) :
    (d.advance .canceled).1 = true ↔ d.ready ≠ [] := by
  cases hg : d.grouping with
  | adjacent =>
    have hnext := nextAdjacent_canceled d.records d.pending fun hne => (h.pending hne).2
    have hready := d.ready_of_adjacent h hg
    rw [d.advance_adjacent .canceled hg, hnext, hready]
    simp
  | bySubject =>
    rw [d.advance_bySubject .canceled hg, d.ready_fill_canceled h]
    simp

theorem grouping_advance (token : Token) (d : DocumentWalk) :
    (d.advance token).2.grouping = d.grouping := by
  cases hg : d.grouping with
  | adjacent => rw [d.advance_adjacent token hg, hg]
  | bySubject => rw [d.advance_bySubject token hg, grouping_fill, hg]

end DocumentWalk

namespace Results

/-- Results that are documents by subject. -/
def BySubject : Results → Prop
  | .documents d => d.grouping = .bySubject
  | _ => False

theorem bySubject_advance (token : Token) (r : Results) :
    (r.advance token).2.BySubject ↔ r.BySubject := by
  cases r with
  | values w => exact Iff.rfl
  | records r => exact Iff.rfl
  | count c => exact Iff.rfl
  | documents d =>
    have hgrouping := d.grouping_advance token
    exact Iff.of_eq (congrArg (· = Grouping.bySubject) hgrouping)

theorem bySubject_result (r : Results) : r.result.2.BySubject ↔ r.BySubject := by
  cases r <;> exact Iff.rfl

/-- Whatever the results are and however they have been walked, there is a next one after canceling
only if it is a document that is ready. -/
theorem advance_canceled_iff (r : Results) (h : r.Orderly) :
    (r.advance .canceled).1 = true ↔ ∃ d, r = .documents d ∧ d.ready ≠ [] := by
  have hfalse (w : Walk) : (w.advance .canceled).1 = false := by
    rcases w.advance_canceled with ⟨hstop, -⟩ | hstop <;> rw [hstop]
  cases r with
  | values w => simp [advance, hfalse w]
  | records r => simp [advance, RecordWalk.advance, hfalse r.walk]
  | count c => simp [advance, c.advance_canceled h]
  | documents d =>
    have hd := d.advance_canceled_iff h
    simpa [advance] using hd

end Results

namespace Session

theorem bySubject_serve (s : Session) (request : Request) :
    (s.serve request).2.results.BySubject ↔ s.results.BySubject := by
  cases request with
  | next => exact s.results.bySubject_advance s.token
  | result => exact s.results.bySubject_result
  | error => exact Iff.rfl
  | cancel => exact Iff.rfl

/-- Results that have been canceled and are not documents by subject. -/
structure Stopped (s : Session) : Prop where
  orderly : s.results.Orderly
  notBySubject : ¬ s.results.BySubject
  canceled : s.token = .canceled

theorem stopped_serve (s : Session) (h : s.Stopped) (request : Request) :
    (s.serve request).1 ≠ .next true ∧ (s.serve request).2.Stopped := by
  have horderly := s.orderly_serve h.orderly request
  have hkind : ¬ (s.serve request).2.results.BySubject := by
    rw [s.bySubject_serve request]
    exact h.notBySubject
  cases request with
  | next =>
    refine ⟨fun hcome => ?_, horderly, hkind, h.canceled⟩
    have htrue : (s.results.advance s.token).1 = true := Answer.next.inj hcome
    rw [h.canceled] at htrue
    obtain ⟨d, hd, hready⟩ := (s.results.advance_canceled_iff h.orderly).mp htrue
    -- Only documents by subject are ever ready.
    apply h.notBySubject
    have hdocuments := h.orderly
    rw [hd] at hdocuments ⊢
    exact (hdocuments.ready hready).1
  | result => exact ⟨nofun, horderly, hkind, h.canceled⟩
  | error => exact ⟨nofun, horderly, hkind, h.canceled⟩
  | cancel => exact ⟨nofun, horderly, hkind, rfl⟩

/-- Once they have been canceled, results are never gone on to, unless they are documents by
subject. Of these there is a next one exactly as long as there is one that is ready. -/
theorem run_canceled (r : Results) (hr : r.Unstarted) (token : Token) (before : List Request) :
    let s := ((run ⟨r, token⟩ before).2.serve .cancel).2
    (¬ r.BySubject → ∀ after, .next true ∉ (s.run after).1) ∧
    ((s.serve .next).1 = .next true ↔ ∃ d, s.results = .documents d ∧ d.ready ≠ []) := by
  intro s
  have hs : s.results.Orderly := orderly_run ⟨r, token⟩ (r.orderly_of_unstarted hr) before
  constructor
  · intro hkind after hmem
    have hbefore : ¬ (run ⟨r, token⟩ before).2.results.BySubject :=
      (run_meets (¬ ·.results.BySubject) (fun _ => True) before
        (fun s hs request _ => ⟨trivial, (s.bySubject_serve request).not.mpr hs⟩)
        ⟨r, token⟩ hkind).2
    have hstopped : s.Stopped := ⟨hs, hbefore, rfl⟩
    have hanswers := (run_meets Stopped (· ≠ .next true) after
      (fun s hs request _ => s.stopped_serve hs request) s hstopped).1
    exact hanswers _ hmem rfl
  · rw [← s.results.advance_canceled_iff hs]
    exact ⟨Answer.next.inj, congrArg Answer.next⟩

/-- Adjacent documents of a graph with one quad, canceled when the first document is there. -/
theorem run_canceled_adjacent :
    let store := (Graph.ofQuads [.ofIris "alice" "likes" "bob" ""]).toStore
    let r : Results := .documents (.start ⟨.start store .standard .all, []⟩ .adjacent)
    let s := (run ⟨r, .live⟩ [.next, .cancel]).2
    (r.advance .live).1 = true ∧ ∀ after, .next true ∉ (s.run after).1 := by
  intro store r s
  have hfirst : (r.advance .live).1 = true := by decide +kernel
  exact ⟨hfirst, (run_canceled r (.documents _ _ _ _ _) .live [.next]).1 nofun⟩

/-- The same documents by subject: the second one comes after canceling. -/
theorem run_canceled_bySubject :
    let store := (Graph.ofQuads [.ofIris "alice" "likes" "bob" ""]).toStore
    let r : Results := .documents (.start ⟨.start store .standard .all, []⟩ .bySubject)
    (run ⟨r, .live⟩ [.next, .cancel, .next]).1 = [.next true, .canceled, .next true] := by
  intro store r
  have hfirst : (r.advance .live).1 = true := by decide +kernel
  have hsecond : ((r.advance .live).2.advance .canceled).1 = true := by decide +kernel
  simp only [run, serve, hfirst, hsecond]

end Session

end QuadGraph
