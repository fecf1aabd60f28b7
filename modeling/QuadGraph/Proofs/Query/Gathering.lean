import QuadGraph.Proofs.Query.Collecting
import QuadGraph.Proofs.Query.Grouping

/-! What comes of walks along documents. However documents are put together, they are made of the
documents of single matches, up to where these end: those in a row with one subject are joined, and
the last of them is withheld if the walk was stopped; or all are put among each other. -/
namespace QuadGraph

variable {token : Token}

namespace RecordWalk

/-- The documents of all single matches, up to the first that cannot be read, and where the walk
stands then. -/
def pullAll (token : Token) (r : RecordWalk) : List Document × RecordWalk :=
  match _h : r.pull token with
  | (none, r') => ([], r')
  | (some doc, r') =>
    let (docs, last) := pullAll token r'
    (doc :: docs, last)
termination_by r.walk.bound
decreasing_by
  have hb := r.bound_pull token
  rw [_h] at hb
  simp only [Option.toList_some, List.length_singleton] at hb
  omega

theorem pullAll_of_some (r r' : RecordWalk) (doc : Document)
    (h : r.pull token = (some doc, r')) :
    r.pullAll token = (doc :: (r'.pullAll token).1, (r'.pullAll token).2) := by
  rw [pullAll]
  split
  · next last hpull => cases h.symm.trans hpull
  · next _ _ hpull =>
    cases h.symm.trans hpull
    rfl

theorem pullAll_of_none (r r' : RecordWalk) (h : r.pull token = (none, r')) :
    r.pullAll token = ([], r') := by
  rw [pullAll]
  split
  · next last hpull =>
    cases h.symm.trans hpull
    rfl
  · next _ _ hpull => cases h.symm.trans hpull

theorem pullAll_of_closed (r : RecordWalk) (h : r.walk.Closed) : r.pullAll token = ([], r) :=
  r.pullAll_of_none r (r.pull_of_closed h)

end RecordWalk

namespace DocumentWalk

/-- The documents to which a walk comes, and where it stands behind the last of them. -/
def gather (token : Token) (d : DocumentWalk) : List Document × DocumentWalk :=
  match _h : d.advance token with
  | (false, d') => ([], d')
  | (true, d') =>
    let (docs, last) := gather token d'
    (d'.current.toList ++ docs, last)
termination_by d.bound
decreasing_by
  have hb := @bound_advance_lt token d (by rw [_h])
  rw [_h] at hb
  exact hb

theorem gather_of_end (d d' : DocumentWalk) (h : d.advance token = (false, d')) :
    d.gather token = ([], d') := by
  rw [gather]
  split
  · next last hadvance =>
    cases h.symm.trans hadvance
    rfl
  · next last hadvance => cases h.symm.trans hadvance

theorem gather_of_advance (d d' : DocumentWalk) (h : d.advance token = (true, d')) :
    d.gather token =
      (d'.current.toList ++ (d'.gather token).1, (d'.gather token).2) := by
  rw [gather]
  split
  · next last hadvance => cases h.symm.trans hadvance
  · next last hadvance =>
    cases h.symm.trans hadvance
    rfl

/-- Documents in a row with one subject joined, the first of them to the one that is pending. -/
def joinRuns : Option Document → List Document → List Document
  | pending, [] => pending.toList
  | none, doc :: docs => joinRuns (some doc) docs
  | some p, doc :: docs =>
    if p.subject = doc.subject then joinRuns (some (p.merge doc)) docs
    else p :: joinRuns (some doc) docs

/-- What of some documents is given out: the last one may lack matches if the walk was stopped. -/
def completed (last : RecordWalk) (docs : List Document) : List Document :=
  if last.error?.isSome then docs.dropLast else docs

theorem joinRuns_ne_nil (p : Document) (docs : List Document) : joinRuns (some p) docs ≠ [] := by
  induction docs generalizing p with
  | nil => exact List.cons_ne_nil p []
  | cons doc docs ih =>
    rw [joinRuns]
    split
    · exact ih (p.merge doc)
    · exact List.cons_ne_nil p _

theorem completed_cons (last : RecordWalk) (doc : Document) (docs : List Document)
    (h : docs ≠ []) : completed last (doc :: docs) = doc :: completed last docs := by
  unfold completed
  split
  · exact List.dropLast_cons_of_ne_nil h
  · rfl

/-- One more adjacent document takes away from what is still to come just what it gives. -/
theorem nextAdjacent_completed (token : Token) (records : RecordWalk)
    (pending : Option Document) :
    let (docs, last) := records.pullAll token
    let (found, pending', records') := nextAdjacent token records pending
    (records'.pullAll token).2 = last ∧
      completed last (joinRuns pending docs) =
        found.toList ++ completed last (joinRuns pending' (records'.pullAll token).1) := by
  fun_induction nextAdjacent token records pending with
  | case1 records doc records' hpull ih =>
    rw [records.pullAll_of_some records' doc hpull]
    exact ih
  | case2 records doc records' hpull p hsame ih =>
    rw [records.pullAll_of_some records' doc hpull]
    simp only [joinRuns, if_pos hsame]
    exact ih
  | case3 records doc records' hpull p hother =>
    -- The pending document is complete, and the next one is begun.
    rw [records.pullAll_of_some records' doc hpull]
    refine ⟨rfl, ?_⟩
    rw [joinRuns, if_neg hother, completed_cons _ _ _ (joinRuns_ne_nil doc _)]
    rfl
  | case4 records pending records' hpull =>
    have hclosed := records.closed_of_pull records' hpull
    have hnone : completed records' [] = [] := by
      unfold completed
      split <;> rfl
    simp only [records.pullAll_of_none records' hpull, records'.pullAll_of_closed hclosed]
    refine ⟨trivial, ?_⟩
    rw [show joinRuns none [] = [] from rfl, hnone, List.append_nil, joinRuns, completed]
    -- Either way the pending document is the last one.
    split
    · cases pending <;> rfl
    · rfl

/-- Adjacent documents are the documents of the matches with those of one subject in a row joined,
without the last of them if the walk was stopped. -/
theorem gather_adjacent (d : DocumentWalk) (hg : d.grouping = .adjacent) :
    (d.gather token).1 = completed (d.records.pullAll token).2
        (joinRuns d.pending (d.records.pullAll token).1) ∧
      (d.gather token).2.records = (d.records.pullAll token).2 := by
  fun_induction gather token d with
  | case1 d d' hadvance =>
    have hnext := nextAdjacent_completed token d.records d.pending
    have hcases := nextAdjacent_cases token d.records d.pending
    rw [d.advance_adjacent token hg] at hadvance
    obtain ⟨hfound, rfl⟩ := Prod.mk.inj hadvance
    have hnone := Option.not_isSome_iff_eq_none.mp (Bool.not_eq_true _ ▸ hfound)
    -- Where no document is found the walk is closed, and none is pending.
    obtain ⟨hpending, hclosed⟩ := hcases.2.2 hnone
    obtain ⟨hlast, hdocs⟩ := hnext
    rw [hdocs, hnone, hpending, RecordWalk.pullAll_of_closed _ hclosed]
    rw [RecordWalk.pullAll_of_closed _ hclosed] at hlast
    refine ⟨?_, hlast⟩
    unfold completed
    split <;> rfl
  | case2 d d' hadvance docs last hgather ih =>
    have hnext := nextAdjacent_completed token d.records d.pending
    rw [d.advance_adjacent token hg] at hadvance
    obtain ⟨-, rfl⟩ := Prod.mk.inj hadvance
    obtain ⟨hlast, hdocs⟩ := hnext
    rw [hgather] at ih
    obtain ⟨hrest, hrecords⟩ := ih hg
    rw [hdocs, ← hlast]
    exact ⟨congrArg _ hrest, hrecords⟩

theorem drain_eq_foldl (records : RecordWalk) (docs : Slots Term Document Term.compareKey) :
    drain token records docs =
      ((records.pullAll token).1.foldl Document.insertInto docs,
        (records.pullAll token).2) := by
  fun_induction drain token records docs with
  | case1 records docs doc records' hpull ih =>
    rw [records.pullAll_of_some records' doc hpull]
    exact ih
  | case2 records docs records' hpull => rw [records.pullAll_of_none records' hpull]; rfl

/-- Once all matches have come up, the documents that are ready are given out one by one. -/
theorem gather_of_drained (d : DocumentWalk) (hg : d.grouping = .bySubject)
    (hd : d.drained = true) :
    (d.gather token).1 = d.ready ∧ (d.gather token).2.records = d.records := by
  fun_induction gather token d with
  | case1 d d' hadvance =>
    rw [d.advance_bySubject token hg, d.fill_of_drained hd] at hadvance
    obtain ⟨hempty, rfl⟩ := Prod.mk.inj hadvance
    have hnil : d.ready = [] := by simpa using hempty
    exact ⟨hnil.symm, rfl⟩
  | case2 d d' hadvance docs last hgather ih =>
    rw [d.advance_bySubject token hg, d.fill_of_drained hd] at hadvance
    obtain ⟨hsome, rfl⟩ := Prod.mk.inj hadvance
    rw [hgather] at ih
    obtain ⟨hrest, hrecords⟩ := ih hg hd
    refine ⟨?_, hrecords⟩
    cases hready : d.ready with
    | nil => simp [hready] at hsome
    | cons doc rest =>
      simp only [hready, List.tail_cons] at hrest
      simp only [List.head?_cons, Option.toList_some, hrest, List.singleton_append]

theorem gather_congr (d e : DocumentWalk) (h : d.advance token = e.advance token) :
    d.gather token = e.gather token := by
  cases hadvance : e.advance token with
  | mk found next =>
    rw [hadvance] at h
    cases found with
    | false => rw [d.gather_of_end next h, e.gather_of_end next hadvance]
    | true => rw [d.gather_of_advance next h, e.gather_of_advance next hadvance]

/-- Documents by subject are the documents of the matches put among each other, or none if the walk
was stopped. -/
theorem gather_bySubject (records : RecordWalk) :
    ((start records .bySubject).gather token).1 =
        (if (records.pullAll token).2.error?.isSome then []
          else ((records.pullAll token).1.foldl Document.insertInto .empty).items) ∧
      ((start records .bySubject).gather token).2.records = (records.pullAll token).2 := by
  let filled := (start records .bySubject).fill token
  have hfill : filled =
      { start records .bySubject with
        records := (records.pullAll token).2
        drained := true
        ready := if (records.pullAll token).2.error?.isSome then []
          else ((records.pullAll token).1.foldl Document.insertInto .empty).items } := by
    simp only [filled, fill, start, drain_eq_foldl]
    rfl
  have hadvance : (start records .bySubject).advance token = filled.advance token := by
    rw [advance_bySubject _ _ rfl, advance_bySubject _ _ (by rw [hfill]; rfl),
      fill_of_drained filled (drained_fill _)]
  rw [gather_congr _ _ hadvance]
  obtain ⟨hdocs, hrecords⟩ := @gather_of_drained token filled
    (by rw [hfill]; rfl) (drained_fill _)
  rw [hdocs, hrecords, hfill]
  exact ⟨rfl, rfl⟩

end DocumentWalk

namespace Results

/-- Documents are collected in JSON, unless the walk was stopped. -/
theorem collect_documents (d : DocumentWalk) :
    ((Results.documents d).collect token).1 = match (d.gather token).2.error? with
      | some e => .error e
      | none => .ok ((d.gather token).1.map Document.toJson) := by
  fun_induction DocumentWalk.gather token d with
  | case1 d d' hadvance =>
    have hend : (Results.documents d).advance token = (false, .documents d') := by
      rw [advance, hadvance]
      rfl
    exact collect_of_end _ _ hend
  | case2 d d' hadvance docs last hgather ih =>
    have hnext : (Results.documents d).advance token = (true, .documents d') := by
      rw [advance, hadvance]
      rfl
    rw [hgather] at ih
    rw [collect_of_advance _ _ _ _ hnext rfl, ih]
    cases last.error? with
    | some e => rfl
    | none =>
      rw [DocumentWalk.result, List.map_append, ← Option.toList_map]
      rfl

end Results

end QuadGraph
