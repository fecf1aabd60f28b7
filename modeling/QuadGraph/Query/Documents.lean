import QuadGraph.Query.Document

/-!
Walks whose results are documents. Adjacent matches with one subject are put together as they come
up, so a document is known only once the next one begins; documents by subject are known only once
all matches have come up.
-/
namespace QuadGraph

structure DocumentWalk where
  records : RecordWalk
  grouping : Grouping
  /-- The document that the next match may still belong to. -/
  pending : Option Document
  /-- Documents that are complete and still to come. -/
  ready : List Document
  current : Option Document
  drained : Bool

namespace DocumentWalk

def start (records : RecordWalk) (grouping : Grouping) : DocumentWalk :=
  ⟨records, grouping, none, [], none, false⟩

def error? (d : DocumentWalk) : Option QueryError :=
  d.records.error?

/-- Pulls matches up to one with another subject than the pending document, and gives that
document, the one that is now pending, and the rest of the walk. A document that is pending when
the walk stops on an error is dropped. -/
def nextAdjacent (token : Token) (records : RecordWalk) (pending : Option Document) :
    Option Document × Option Document × RecordWalk :=
  match _h : records.pull token with
  | (some doc, records') =>
    match pending with
    | none => nextAdjacent token records' (some doc)
    | some p =>
      if p.subject = doc.subject then nextAdjacent token records' (some (p.merge doc))
      else (some p, some doc, records')
  | (none, records') => (if records'.error?.isSome then none else pending, none, records')
termination_by records.walk.bound
decreasing_by
  all_goals
    have hb := records.bound_pull token
    rw [_h] at hb
    simp only [Option.toList_some, List.length_singleton] at hb
    omega

/-- Pulls all matches and puts them together with the documents so far. -/
def drain (token : Token) (records : RecordWalk)
    (docs : Slots Term Document Term.compareKey) :
    Slots Term Document Term.compareKey × RecordWalk :=
  match _h : records.pull token with
  | (some doc, records') => drain token records' (Document.insertInto docs doc)
  | (none, records') => (docs, records')
termination_by records.walk.bound
decreasing_by
  have hb := records.bound_pull token
  rw [_h] at hb
  simp only [Option.toList_some, List.length_singleton] at hb
  omega

/-- Goes through all matches if that has not been done. Documents of a walk that stops on an error
are dropped. -/
def fill (token : Token) (d : DocumentWalk) : DocumentWalk :=
  if d.drained then d
  else
    let (docs, records) := drain token d.records .empty
    { d with
      records
      drained := true
      ready := if records.error?.isSome then d.ready else docs.items }

/-- Goes to the next document, and says whether there is one. -/
def advance (token : Token) (d : DocumentWalk) : Bool × DocumentWalk :=
  match d.grouping with
  | .adjacent =>
    let (current, pending, records) := nextAdjacent token d.records d.pending
    (current.isSome, { d with records, pending, current })
  | .bySubject =>
    let d := d.fill token
    (!d.ready.isEmpty, { d with current := d.ready.head?, ready := d.ready.tail })

/-- The document to which the walk has gone. -/
def result (d : DocumentWalk) : Option Json :=
  d.current.map Document.toJson

/-- A bound on the number of documents still to come. -/
def bound (d : DocumentWalk) : Nat :=
  match d.grouping with
  | .adjacent => d.records.walk.bound + d.pending.toList.length
  | .bySubject => d.ready.length + if d.drained then 0 else d.records.walk.bound

theorem bound_nextAdjacent (token : Token) (records : RecordWalk) (pending : Option Document) :
    (nextAdjacent token records pending).2.2.walk.bound
        + (nextAdjacent token records pending).2.1.toList.length
        + (nextAdjacent token records pending).1.toList.length
      ≤ records.walk.bound + pending.toList.length := by
  fun_induction nextAdjacent token records pending with
  | case1 records doc records' h ih =>
    have hb := records.bound_pull token
    rw [h] at hb
    simp only [Option.toList_some, List.length_singleton, Option.toList_none,
      List.length_nil] at hb ih ⊢
    omega
  | case2 records doc records' h p hp ih =>
    have hb := records.bound_pull token
    rw [h] at hb
    simp only [Option.toList_some, List.length_singleton] at hb ih ⊢
    omega
  | case3 records doc records' h p hp =>
    have hb := records.bound_pull token
    rw [h] at hb
    simp only [Option.toList_some, List.length_singleton] at hb ⊢
    omega
  | case4 records pending records' h =>
    have hb := records.bound_pull token
    rw [h] at hb
    simp only [Option.toList_none, List.length_nil] at hb ⊢
    split <;> simp <;> omega

theorem length_drain (token : Token) (records : RecordWalk)
    (docs : Slots Term Document Term.compareKey) :
    (drain token records docs).1.items.length ≤ records.walk.bound + docs.items.length := by
  fun_induction drain token records docs with
  | case1 records docs doc records' h ih =>
    have hb := records.bound_pull token
    have hi := doc.length_insertInto_le docs
    rw [h] at hb
    simp only [Option.toList_some, List.length_singleton] at hb
    omega
  | case2 records docs records' h => exact Nat.le_add_left _ _

/-- Every document that a walk comes to was still to come. -/
theorem bound_advance_lt {token : Token} {d : DocumentWalk} (h : (d.advance token).1 = true) :
    (d.advance token).2.bound < d.bound := by
  obtain ⟨records, grouping, pending, ready, current, drained⟩ := d
  cases grouping with
  | adjacent =>
    have hb := bound_nextAdjacent token records pending
    simp only [advance, bound] at h ⊢
    cases hn : nextAdjacent token records pending with
    | mk found rest =>
      simp only [hn] at h hb ⊢
      obtain ⟨doc, rfl⟩ := Option.isSome_iff_exists.mp h
      simp only [Option.toList_some, List.length_singleton] at hb
      omega
  | bySubject =>
    have hd := length_drain token records .empty
    cases drained with
    | true =>
      simp only [advance, bound, fill, if_true] at h ⊢
      cases ready with
      | nil => simp at h
      | cons doc rest => simp
    | false =>
      simp only [advance, bound, fill, Bool.false_eq_true, if_false, if_true] at h ⊢
      simp only [Slots.items_empty, List.length_nil, Nat.add_zero] at hd
      cases he : (drain token records .empty).2.error?.isSome with
      | true =>
        simp only [he, if_true] at h ⊢
        cases ready with
        | nil => simp at h
        | cons doc rest => simp only [List.tail_cons, List.length_cons]; omega
      | false =>
        simp only [he, Bool.false_eq_true, if_false] at h ⊢
        cases hdocs : (drain token records .empty).1.items with
        | nil => simp [hdocs] at h
        | cons doc rest =>
          rw [hdocs] at hd
          simp only [List.tail_cons, List.length_cons] at hd ⊢
          omega

end DocumentWalk

end QuadGraph
