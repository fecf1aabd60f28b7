import QuadGraph.Proofs.Query.Canceling
import QuadGraph.Proofs.Query.Identifying
import QuadGraph.Proofs.Query.Keeping
import QuadGraph.Proofs.Query.Regrouping

/-! What a caller gets of adjacent documents before their walk ends. Every document that was given
out is complete, since the match behind it had another subject or there was none behind it. The
document that was pending when the walk was stopped is withheld, and nothing comes after it. -/
namespace QuadGraph

open Outcome

theorem Walk.not_closed_of_ahead (w : Walk) (b : Binding) (rest : List Binding)
    (h : w.ahead = .ok (b :: rest)) : ¬ w.Closed := by
  rintro ⟨reason, hclosed⟩
  rw [ahead, hclosed] at h
  cases reason <;> cases h

/-- The longest runs of matches with one subject. -/
def Record.runs (records : List Record) : List (List Record) :=
  records.splitBy fun a b => a.subject = b.subject

namespace Walk

/-- Going on looks at the token once, after the matches so far. -/
theorem advance_congr (w : Walk) (token other : Token)
    (h : token.canceledAt w.produced = other.canceledAt w.produced) :
    w.advance token = w.advance other := by
  unfold advance
  rw [h]

end Walk

namespace RecordWalk

/-- The same walk, standing elsewhere after some more matches. -/
def moved (r : RecordWalk) (more : Nat) (state : WalkState) : RecordWalk :=
  { r with walk := { r.walk with state, produced := r.walk.produced + more } }

theorem moved_moved (r : RecordWalk) (m n : Nat) (state state' : WalkState) :
    (r.moved m state).moved n state' = r.moved (n + m) state' := by
  simp only [moved, Nat.add_assoc, Nat.add_comm m]

/-- What is read at a match, or why it cannot be read. -/
def told (r : RecordWalk) : Binding → Except QueryError Record :=
  Binding.told r.selected r.walk.store

/-- The document of what is read at a match. -/
def document (r : RecordWalk) (record : Record) : Document :=
  .telling record.subject (record.entries r.walk.vocabulary)

/-- Whether the token is seen canceled after some more matches. -/
def canceledAfter (r : RecordWalk) (token : Token) (more : Nat) : Bool :=
  token.canceledAt (r.walk.produced + more)

/-- Why a walk ends after some more matches, with certain ones still ahead: there are none, the
first of them cannot be read, or it is seen canceled then. -/
def Ends (r : RecordWalk) (token : Token) (more : Nat) (rest : List Binding) :
    Option QueryError → Prop
  | none => rest = []
  | some e => (∃ b tail, rest = b :: tail ∧ r.told b = .error e) ∨
      e = .canceled ∧ r.canceledAfter token more = true

/-- What a walk sees after it has moved is counted from where it was. -/
theorem canceledAfter_moved (r : RecordWalk) (token : Token) (m n : Nat) (state : WalkState) :
    (r.moved m state).canceledAfter token n = r.canceledAfter token (m + n) := by
  rw [canceledAfter, canceledAfter, moved, Nat.add_assoc]

theorem ends_moved (r : RecordWalk) (token : Token) (m n : Nat) (state : WalkState)
    (rest : List Binding) (reason : Option QueryError) :
    (r.moved m state).Ends token n rest reason ↔ r.Ends token (m + n) rest reason := by
  cases reason with
  | none => exact Iff.rfl
  | some e =>
    rw [Ends, Ends, canceledAfter_moved]
    exact Iff.rfl

theorem pull_congr (r : RecordWalk) (token other : Token)
    (h : token.canceledAt r.walk.produced = other.canceledAt r.walk.produced) :
    r.pull token = r.pull other := by
  unfold pull advance
  rw [r.walk.advance_congr token other h]

theorem pull_of_goTo (r : RecordWalk) (b : Binding) (rest : List Binding)
    (h : r.walk.ahead = .ok (b :: rest)) :
    r.pull .live = match r.told b with
      | .ok record => (some (r.document record), r.moved 1 (.standing b rest))
      | .error e => (none, r.moved 1 (.closed (some e))) :=
  r.pull_of_advance .live _ b (r.walk.advance_of_ahead (b :: rest) h) rfl

theorem pull_of_behind (r : RecordWalk) (h : r.walk.ahead = .ok []) :
    r.pull .live = (none, r.moved 0 (.closed none)) := by
  rw [pull, advance, r.walk.advance_of_ahead [] h]
  rfl

/-- A walk that is canceled ends here for that reason, unless it has come to its end before. -/
theorem pull_of_canceled (r : RecordWalk) (token : Token) (rest : List Binding)
    (h : r.walk.ahead = .ok rest) (hc : r.canceledAfter token 0 = true) :
    ∃ reason, r.Ends token 0 rest reason ∧
      r.pull token = (none, r.moved 0 (.closed reason)) := by
  rw [r.pull_congr token .canceled hc]
  by_cases hclosed : r.walk.Closed
  · obtain ⟨reason, hreason⟩ := hclosed
    rw [Walk.ahead, hreason] at h
    cases reason with
    | some e => cases h
    | none =>
      cases h
      refine ⟨none, rfl, ?_⟩
      rw [r.pull_of_closed ⟨none, hreason⟩, moved, ← hreason]
      rfl
  · exact ⟨some .canceled, Or.inr ⟨rfl, hc⟩, r.pull_canceled_of_open hclosed⟩

/-- The next match ahead is pulled if the walk is not seen canceled and the match can be read;
otherwise the walk ends. -/
theorem pull_of_ahead (token : Token) (r : RecordWalk) (rest : List Binding)
    (h : r.walk.ahead = .ok rest) :
    (r.canceledAfter token 0 = false ∧ ∃ b tail record, rest = b :: tail ∧
      r.told b = .ok record ∧
      r.pull token = (some (r.document record), r.moved 1 (.standing b tail))) ∨
    ∃ reason more, r.Ends token 0 rest reason ∧ (reason = none → more = 0) ∧
      r.pull token = (none, r.moved more (.closed reason)) := by
  cases hc : r.canceledAfter token 0 with
  | true =>
    obtain ⟨reason, hends, hpull⟩ := r.pull_of_canceled token rest h hc
    exact Or.inr ⟨reason, 0, hends, fun _ => rfl, hpull⟩
  | false =>
    rw [r.pull_congr token .live hc]
    cases rest with
    | nil => exact Or.inr ⟨none, 0, rfl, fun _ => rfl, r.pull_of_behind h⟩
    | cons b tail =>
      have hpull := r.pull_of_goTo b tail h
      cases htold : r.told b with
      | ok record =>
        rw [htold] at hpull
        exact Or.inl ⟨rfl, b, tail, record, rfl, htold, hpull⟩
      | error e =>
        rw [htold] at hpull
        exact Or.inr ⟨some e, 1, Or.inl ⟨b, tail, rfl, htold⟩, nofun, hpull⟩

/-- A document that is pulled comes from the first match ahead. -/
theorem exists_of_pull (token : Token) (r r' : RecordWalk) (rest : List Binding) (doc : Document)
    (h : r.walk.ahead = .ok rest) (hpull : r.pull token = (some doc, r')) :
    r.canceledAfter token 0 = false ∧ ∃ b tail record, rest = b :: tail ∧ r.told b = .ok record ∧
      doc = r.document record ∧ r' = r.moved 1 (.standing b tail) := by
  rcases r.pull_of_ahead token rest h with
    ⟨hopen, b, tail, record, hrest, htold, hcome⟩ | ⟨reason, more, -, -, hend⟩
  · cases hpull.symm.trans hcome
    exact ⟨hopen, b, tail, record, hrest, htold, rfl, rfl⟩
  · cases hpull.symm.trans hend

/-- Matches that cannot be had at all are not pulled. -/
theorem pull_of_ahead_error (token : Token) (r : RecordWalk) (e : QueryError)
    (h : r.walk.ahead = .error e) :
    ∃ r', r.pull token = (none, r') ∧ r'.error?.isSome = true := by
  cases hc : token.canceledAt r.walk.produced with
  | false =>
    obtain ⟨w, hadvance, herror⟩ := r.walk.advance_of_ahead_error e h
    rw [r.pull_congr token .live hc]
    refine ⟨{ r with walk := w }, by rw [pull, advance, hadvance], ?_⟩
    rw [error?, herror]
    rfl
  | true =>
    rw [r.pull_congr token .canceled hc]
    by_cases hclosed : r.walk.Closed
    · refine ⟨r, r.pull_of_closed hclosed, ?_⟩
      obtain ⟨reason, hreason⟩ := hclosed
      rw [Walk.ahead, hreason] at h
      cases reason with
      | none => cases h
      | some e' => rw [error?, Walk.error?, hreason]; rfl
    · exact ⟨_, r.pull_canceled_of_open hclosed, rfl⟩

end RecordWalk

namespace DocumentWalk

open Document

/-- Documents so far, the last of which is still pending, and further ones: these go on with the
pending one. -/
theorem joinRuns_append (pending : Option Document) (docs later init : List Document)
    (last : Document) (h : joinRuns pending docs = init ++ [last]) :
    joinRuns pending (docs ++ later) = init ++ joinRuns (some last) later := by
  induction docs generalizing pending init with
  | nil =>
    cases pending with
    | none => cases init <;> cases h
    | some p =>
      have hparts : ([] : List Document) = init ∧ [p] = [last] := List.append_inj' h rfl
      obtain ⟨rfl, hlast⟩ := hparts
      cases hlast
      rfl
  | cons doc docs ih =>
    cases pending with
    | none => exact ih (some doc) init h
    | some p =>
      rw [List.cons_append]
      simp only [joinRuns] at h ⊢
      split at h
      · next hsame =>
        rw [if_pos hsame]
        exact ih (some (p.merge doc)) init h
      · next hother =>
        rw [if_neg hother]
        cases init with
        | nil => exact absurd (List.cons.inj h).2 (joinRuns_ne_nil doc docs)
        | cons first init =>
          obtain ⟨rfl, hrest⟩ := List.cons.inj h
          exact congrArg (p :: ·) (ih (some doc) init hrest)

theorem forall₂_completed {α : Type} {R : α → Document → Prop} (last : RecordWalk) {runs : List α}
    {docs : List Document} (h : List.Forall₂ R runs docs) :
    List.Forall₂ R (if last.error?.isSome then runs.dropLast else runs) (completed last docs) := by
  unfold completed
  split
  · rw [List.dropLast_eq_take, List.dropLast_eq_take, h.length_eq]
    exact List.forall₂_take _ h
  · exact h

/-- What a request for an adjacent document may bring, with certain matches ahead: the pending
document and a next one that is pending now, or the end. At the end the pending document is given
out unless the walk was stopped. Before every match that is pulled the walk was not seen
canceled. -/
inductive Brings (token : Token) (r : RecordWalk) (pending : Option Document)
    (rest : List Binding) : Option Document × Option Document × RecordWalk → Prop
  | next {taken ahead pulled b doc next} (hrest : rest = taken ++ ahead)
    (htold : taken.mapM r.told = .ok pulled)
    (hlive : ∀ k < taken.length, r.canceledAfter token k = false)
    (hdocs : joinRuns pending (pulled.map r.document) = [doc, next]) :
    Brings token r pending rest
      (some doc, some next, r.moved taken.length (.standing b ahead))
  | ended {taken ahead pulled found reason more} (hrest : rest = taken ++ ahead)
    (htold : taken.mapM r.told = .ok pulled)
    (hlive : ∀ k < taken.length, r.canceledAfter token k = false)
    (hends : r.Ends token taken.length ahead reason)
    (hmore : reason = none → more = taken.length)
    (hopen : reason ≠ none → ¬ r.walk.Closed)
    (hfound : found.toList =
      completed (r.moved more (.closed reason)) (joinRuns pending (pulled.map r.document))) :
    Brings token r pending rest (found, none, r.moved more (.closed reason))

/-- One more match that is read goes on with the pending document or begins it. -/
theorem brings_cons {token : Token} {r : RecordWalk} {pending : Option Document} {p : Document}
    {b : Binding} {tail : List Binding} {record : Record}
    {out : Option Document × Option Document × RecordWalk}
    (hr : r.walk.ahead = .ok (b :: tail)) (hb : r.told b = .ok record)
    (hc : r.canceledAfter token 0 = false)
    (hp : ∀ docs, joinRuns pending (r.document record :: docs) = joinRuns (some p) docs)
    (h : Brings token (r.moved 1 (.standing b tail)) (some p) tail out) :
    Brings token r pending (b :: tail) out := by
  have hcons (taken : List Binding) (pulled : List Record)
      (hpulled : taken.mapM r.told = .ok pulled) :
      (b :: taken).mapM r.told = .ok (record :: pulled) := by
    rw [List.mapM_cons, hb, hpulled]
    rfl
  have hall (taken : List Binding)
      (hlive : ∀ k < taken.length, (r.moved 1 (.standing b tail)).canceledAfter token k = false) :
      ∀ k < (b :: taken).length, r.canceledAfter token k = false := by
    intro k hk
    cases k with
    | zero => exact hc
    | succ k =>
      rw [Nat.add_comm, ← RecordWalk.canceledAfter_moved]
      exact hlive k (Nat.lt_of_succ_lt_succ hk)
  cases h with
  | next hrest htold hlive hdocs =>
    rw [RecordWalk.moved_moved]
    exact .next (congrArg (b :: ·) hrest) (hcons _ _ htold) (hall _ hlive) ((hp _).trans hdocs)
  | @ended taken ahead pulled found reason more hrest htold hlive hends hmore _ hfound =>
    rw [RecordWalk.moved_moved] at hfound ⊢
    refine .ended (congrArg (b :: ·) hrest) (hcons _ _ htold) (hall _ hlive) ?_
      (fun hnone => congrArg (· + 1) (hmore hnone))
      (fun _ => r.walk.not_closed_of_ahead b tail hr) ?_
    · rw [List.length_cons, Nat.add_comm]
      exact (r.ends_moved ..).mp hends
    · rw [List.map_cons, hp]
      exact hfound

theorem nextAdjacent_brings (token : Token) (records : RecordWalk) (pending : Option Document)
    (rest : List Binding) (h : records.walk.ahead = .ok rest) :
    Brings token records pending rest (nextAdjacent token records pending) := by
  fun_induction nextAdjacent token records pending generalizing rest with
  | case1 records doc records' hpull ih =>
    obtain ⟨hc, b, tail, record, rfl, htold, rfl, rfl⟩ :=
      records.exists_of_pull token records' rest doc h hpull
    exact brings_cons h htold hc (fun _ => rfl) (ih tail rfl)
  | case2 records doc records' hpull p hsame ih =>
    obtain ⟨hc, b, tail, record, rfl, htold, rfl, rfl⟩ :=
      records.exists_of_pull token records' rest doc h hpull
    refine brings_cons h htold hc (fun docs => ?_) (ih tail rfl)
    rw [joinRuns, if_pos hsame]
  | case3 records doc records' hpull p hother =>
    obtain ⟨hc, b, tail, record, rfl, htold, rfl, rfl⟩ :=
      records.exists_of_pull token records' rest doc h hpull
    have hone : [b].mapM records.told = .ok [record] := by
      rw [List.mapM_cons, htold]
      rfl
    refine Brings.next List.singleton_append.symm hone ?_ ?_
    · intro k hk
      rwa [Nat.lt_one_iff.mp hk]
    · rw [List.map_cons, joinRuns, if_neg hother]
      rfl
  | case4 records pending records' hpull =>
    rcases records.pull_of_ahead token rest h with
      ⟨-, b, tail, record, -, -, hcome⟩ | ⟨reason, more, hends, hmore, hend⟩
    · cases hpull.symm.trans hcome
    · cases hpull.symm.trans hend
      have hnone : ([] : List Binding).mapM records.told = .ok [] := rfl
      refine .ended (List.nil_append rest).symm hnone (fun k hk => absurd hk k.not_lt_zero)
        hends hmore ?_ ?_
      · -- A walk that is closed stays where it is, and it was not stopped.
        intro hreason hclosed
        obtain ⟨-, hsame⟩ := Prod.mk.inj (hpull.symm.trans (records.pull_of_closed hclosed))
        rw [← hsame] at h
        obtain ⟨e, rfl⟩ := Option.ne_none_iff_exists'.mp hreason
        cases h
      · rw [List.map_nil, joinRuns, completed]
        split
        · cases pending <;> rfl
        · rfl

/-- A walk along adjacent documents between two requests: the documents given out so far and the
one that is pending are those of the matches that were pulled, and the other matches are ahead.
There is always one pending between the first match and the end. -/
structure Underway (r : RecordWalk) (taken rest : List Binding) (pulled : List Record)
    (docs : List Document) (d : DocumentWalk) : Prop where
  grouping : d.grouping = .adjacent
  source : ∃ state, d.records = r.moved taken.length state
  ahead : d.records.walk.ahead = .ok rest
  told : taken.mapM r.told = .ok pulled
  joined : joinRuns none (pulled.map r.document) = docs ++ d.pending.toList
  begun : d.pending = none → pulled = [] ∨ d.records.walk.state = .closed none

theorem underway_start (r : RecordWalk) (bs : List Binding) (h : r.walk.ahead = .ok bs) :
    Underway r [] bs [] [] (start r .adjacent) :=
  ⟨rfl, ⟨r.walk.state, rfl⟩, h, rfl, rfl, fun _ => Or.inl rfl⟩

namespace Underway

variable {r : RecordWalk} {taken rest : List Binding} {pulled : List Record}
  {docs : List Document} {d : DocumentWalk}

theorem mapM_told_append (h : d.Underway r taken rest pulled docs) (more : List Binding)
    (records : List Record) (htold : more.mapM r.told = .ok records) :
    (taken ++ more).mapM r.told = .ok (pulled ++ records) := by
  rw [List.mapM_append, h.told, htold]
  rfl

/-- The matches that are pulled next go on with the pending document. -/
theorem joined_append (h : d.Underway r taken rest pulled docs) (more ahead : List Binding)
    (records : List Record) (hrest : rest = more ++ ahead)
    (htold : more.mapM r.told = .ok records) :
    joinRuns none ((pulled ++ records).map r.document) =
      docs ++ joinRuns d.pending (records.map r.document) := by
  have hjoined := h.joined
  cases hpending : d.pending with
  | some p =>
    rw [hpending] at hjoined
    rw [List.map_append]
    exact joinRuns_append none _ _ docs p hjoined
  | none =>
    rw [hpending, Option.toList_none, List.append_nil] at hjoined
    rcases h.begun hpending with rfl | hclosed
    · cases hjoined
      rfl
    · -- Behind the last match there is nothing to pull.
      have hahead := h.ahead
      rw [Walk.ahead, hclosed] at hahead
      cases hahead
      obtain ⟨rfl, -⟩ := List.append_eq_nil_iff.mp hrest.symm
      rw [List.mapM_nil] at htold
      cases htold
      rw [List.append_nil, hjoined]
      exact (List.append_nil docs).symm

/-- What a walk withholds when it is stopped is the document that was pending. -/
theorem completed_append (h : d.Underway r taken rest pulled docs) (last : RecordWalk)
    (more : List Document) (hopen : last.error? ≠ none → ¬ d.records.walk.Closed)
    (hmore : completed last (joinRuns d.pending more) = []) :
    completed last (docs ++ joinRuns d.pending more) = docs := by
  unfold completed at hmore ⊢
  split at hmore
  · next herror =>
    rw [if_pos herror]
    cases hpending : d.pending with
    | some p =>
      rw [hpending] at hmore
      rw [List.dropLast_append_of_ne_nil (joinRuns_ne_nil p more), hmore, List.append_nil]
    | none =>
      -- Nothing has been pulled yet, so nothing was given out either.
      have hjoined := h.joined
      rcases h.begun hpending with rfl | hclosed
      · rw [hpending, Option.toList_none, List.append_nil] at hjoined
        cases hjoined
        rw [hpending] at hmore
        exact hmore
      · exact absurd ⟨none, hclosed⟩ (hopen (Option.isSome_iff_ne_none.mp herror))
  · next hnone =>
    rw [if_neg hnone, hmore, List.append_nil]

/-- A request for the next document pulls further matches, and was not seen canceled before any of
them. If there is a next document the walk is underway again, and the document is given out; where
there is none, the documents given out are those of all matches that were pulled, without the
last one if the walk was stopped. -/
theorem advance (h : d.Underway r taken rest pulled docs) (token : Token) :
    let d' := (d.advance token).2
    ∃ more ahead records, rest = more ++ ahead ∧
      (taken ++ more).mapM r.told = .ok (pulled ++ records) ∧
      (∀ k, taken.length ≤ k → k < (taken ++ more).length → r.canceledAfter token k = false) ∧
      ((d.advance token).1 = true →
        d'.Underway r (taken ++ more) ahead (pulled ++ records) (docs ++ d'.current.toList)) ∧
      ((d.advance token).1 = false →
        r.Ends token (taken ++ more).length ahead d'.error? ∧
        docs = completed d'.records (joinRuns none ((pulled ++ records).map r.document))) := by
  obtain ⟨state, hsource⟩ := h.source
  have hbrings := nextAdjacent_brings token d.records d.pending rest h.ahead
  have hcases := nextAdjacent_cases token d.records d.pending
  rw [d.advance_adjacent token h.grouping]
  have hlater (more : List Binding)
      (hlive : ∀ k < more.length, d.records.canceledAfter token k = false) (k : Nat)
      (hk : taken.length ≤ k) (hlt : k < (taken ++ more).length) :
      r.canceledAfter token k = false := by
    obtain ⟨j, rfl⟩ := Nat.exists_eq_add_of_le hk
    rw [List.length_append] at hlt
    rw [← RecordWalk.canceledAfter_moved, ← hsource]
    exact hlive j (Nat.lt_of_add_lt_add_left hlt)
  have hmoved (more : List Binding) (state' : WalkState) :
      d.records.moved more.length state' = r.moved (taken ++ more).length state' := by
    rw [hsource, RecordWalk.moved_moved, List.length_append, Nat.add_comm]
  generalize nextAdjacent token d.records d.pending = out at hbrings hcases
  cases hbrings with
  | @next more ahead records b doc next hrest htold hlive hdocs =>
    rw [hmoved]
    rw [hsource] at htold hdocs
    have hjoined := h.joined_append more ahead records hrest htold
    have hall := h.mapM_told_append more records htold
    refine ⟨more, ahead, records, hrest, hall, hlater more hlive, fun _ => ?_, nofun⟩
    refine ⟨h.grouping, ⟨.standing b ahead, rfl⟩, rfl, hall, ?_, nofun⟩
    rw [hjoined, List.append_assoc]
    exact congrArg (docs ++ ·) hdocs
  | @ended more ahead records found reason count hrest htold hlive hends hcount hopen hfound =>
    have htold' : more.mapM r.told = .ok records := by rwa [hsource] at htold
    have hfound' : found.toList = completed (d.records.moved count (.closed reason))
        (joinRuns d.pending (records.map r.document)) := by
      rw [hfound, hsource]
      rfl
    have hjoined := h.joined_append more ahead records hrest htold'
    have hall := h.mapM_told_append more records htold'
    refine ⟨more, ahead, records, hrest, hall, hlater more hlive, fun hcome => ?_,
      fun hstop => ?_⟩
    · -- Only at the end of the matches there is a document and none that is pending.
      have hnone : reason = none := hcases.2.1 (Option.isSome_iff_ne_none.mp hcome)
      subst hnone
      cases hends
      rw [hcount rfl, hmoved] at hfound' ⊢
      refine ⟨h.grouping, ⟨.closed none, rfl⟩, rfl, hall, ?_, fun _ => Or.inr rfl⟩
      rw [hjoined, Option.toList_none, List.append_nil]
      exact congrArg (docs ++ ·) hfound'.symm
    · have hnone := Option.not_isSome_iff_eq_none.mp (Bool.not_eq_true _ ▸ hstop)
      simp only at hnone
      constructor
      · rw [List.length_append]
        rw [hsource] at hends
        exact (r.ends_moved ..).mp hends
      · rw [hjoined]
        rw [hnone] at hfound'
        exact (h.completed_append (d.records.moved count (.closed reason)) _ hopen
          hfound'.symm).symm

end Underway

/-- Where the matches cannot be had at all there is no document. -/
theorem advance_of_ahead_error (d : DocumentWalk) (hg : d.grouping = .adjacent) (e : QueryError)
    (h : d.records.walk.ahead = .error e) (token : Token) :
    (d.advance token).1 = false ∧ (d.advance token).2.error? ≠ none := by
  obtain ⟨records', hpull, herror⟩ := d.records.pull_of_ahead_error token e h
  rw [d.advance_adjacent token hg, nextAdjacent_of_pull _ _ _ hpull, if_pos herror]
  exact ⟨rfl, Option.isSome_iff_ne_none.mp herror⟩

end DocumentWalk

namespace Session

/-- The results that can be read right after each request for the next one. -/
def emitted (s : Session) : List Request → List Json
  | [] => []
  | .next :: rest =>
    (s.serve .next).2.results.result.1.toList ++ (s.serve .next).2.emitted rest
  | request :: rest => (s.serve request).2.emitted rest

/-- A session of the adjacent documents of a walk. -/
def adjacent (token : Token) (r : RecordWalk) : Session :=
  ⟨.documents (.start r .adjacent), token⟩

/-- Requests that have not come to the end of a walk along documents: what going on to the next
document keeps true of the walk and of the documents before is true of what was emitted. -/
theorem emitted_documents (P : List Document → DocumentWalk → Prop)
    (hnext : ∀ token docs (d : DocumentWalk), P docs d → (d.advance token).1 = true →
      P (docs ++ (d.advance token).2.current.toList) (d.advance token).2)
    (requests : List Request) (s : Session) (docs : List Document) (d : DocumentWalk)
    (hs : s.results = .documents d) (h : P docs d)
    (hopen : Answer.next false ∉ (s.run requests).1) :
    ∃ docs' d', (s.run requests).2.results = .documents d' ∧ P docs' d' ∧
      docs.map Document.toJson ++ s.emitted requests = docs'.map Document.toJson := by
  induction requests generalizing s docs d with
  | nil => exact ⟨docs, d, hs, h, List.append_nil _⟩
  | cons request rest ih =>
    rw [run, List.mem_cons, not_or] at hopen
    obtain ⟨hfirst, hrest⟩ := hopen
    cases request with
    -- Only a request for the next document moves the walk.
    | result => exact ih (s.serve .result).2 docs d (by rw [serve, hs]; rfl) h hrest
    | error => exact ih (s.serve .error).2 docs d hs h hrest
    | cancel => exact ih (s.serve .cancel).2 docs d hs h hrest
    | next =>
      let d' := (d.advance s.token).2
      have hcome : (d.advance s.token).1 = true := by
        by_contra hfalse
        rw [serve, hs] at hfirst
        exact hfirst (congrArg Answer.next (Bool.not_eq_true _ ▸ hfalse)).symm
      have hresults : (s.serve .next).2.results = .documents d' := by
        rw [serve, hs]
        rfl
      obtain ⟨docs', last, hlast, hkept, hdocs⟩ := ih (s.serve .next).2
        (docs ++ d'.current.toList) d' hresults (hnext _ _ d h hcome) hrest
      refine ⟨docs', last, hlast, hkept, ?_⟩
      rw [← hdocs, emitted, hresults, List.map_append, ← Option.toList_map, List.append_assoc]
      rfl

/-- As long as there was a next document for every request the walk is underway, and the documents
given out are what was emitted. -/
theorem exists_underway (begun : Token) (r : RecordWalk) (bs : List Binding)
    (h : r.walk.ahead = .ok bs) (requests : List Request)
    (hopen : Answer.next false ∉ ((adjacent begun r).run requests).1) :
    ∃ taken rest pulled docs d, ((adjacent begun r).run requests).2.results = .documents d ∧
      bs = taken ++ rest ∧ d.Underway r taken rest pulled docs ∧
      (adjacent begun r).emitted requests = docs.map Document.toJson := by
  let P (docs : List Document) (d : DocumentWalk) : Prop := ∃ taken rest pulled,
    bs = taken ++ rest ∧ d.Underway r taken rest pulled docs
  have hkept (token : Token) (docs : List Document) (d : DocumentWalk) (h : P docs d)
      (hcome : (d.advance token).1 = true) :
      P (docs ++ (d.advance token).2.current.toList) (d.advance token).2 := by
    obtain ⟨taken, rest, pulled, hbs, hunderway⟩ := h
    obtain ⟨more, ahead, records, rfl, -, -, hgoes, -⟩ := hunderway.advance token
    exact ⟨taken ++ more, ahead, pulled ++ records, by rw [hbs, List.append_assoc], hgoes hcome⟩
  have hstart : P [] (.start r .adjacent) :=
    ⟨[], bs, [], rfl, DocumentWalk.underway_start r bs h⟩
  obtain ⟨docs, d, hd, ⟨taken, rest, pulled, hbs, hunderway⟩, hemitted⟩ :=
    emitted_documents P hkept requests (adjacent begun r) [] _ rfl hstart hopen
  exact ⟨taken, rest, pulled, docs, d, hd, hbs, hunderway, hemitted⟩

/-- Where the matches cannot be had, there has been no request for a document so far. -/
theorem unmoved_of_ahead_error (begun : Token) (r : RecordWalk) (e : QueryError)
    (h : r.walk.ahead = .error e) (requests : List Request)
    (hopen : Answer.next false ∉ ((adjacent begun r).run requests).1) :
    ((adjacent begun r).run requests).2.results = .documents (.start r .adjacent) ∧
      (adjacent begun r).emitted requests = [] := by
  let P (docs : List Document) (d : DocumentWalk) : Prop := docs = [] ∧ d = .start r .adjacent
  have hkept (token : Token) (docs : List Document) (d : DocumentWalk) (h' : P docs d)
      (hcome : (d.advance token).1 = true) :
      P (docs ++ (d.advance token).2.current.toList) (d.advance token).2 := by
    obtain ⟨-, rfl⟩ := h'
    cases hcome.symm.trans (DocumentWalk.advance_of_ahead_error _ rfl e h token).1
  obtain ⟨_, _, hd, ⟨rfl, rfl⟩, hemitted⟩ :=
    emitted_documents P hkept requests (adjacent begun r) [] _ rfl ⟨rfl, rfl⟩ hopen
  exact ⟨hd, hemitted⟩

/-- Adjacent documents up to where there is no next one. They are those of the longest runs of
matches with one subject among all matches that were pulled, up to the end, to one that cannot be
read or to where the walk was seen canceled, which may be at any match; only the last run is
withheld unless the end was reached. Nothing comes after that, and nothing comes at all if the path
cannot be walked. -/
theorem run_withholds (store : QuadStore) (v : Vocabulary) (path : Path) (selected : List String)
    (token : Token) (before : List Request) :
    let begun := adjacent token ⟨.start store v path, selected⟩
    let s := (begun.run before).2
    let t := (s.serve .next).2
    .next false ∉ (begun.run before).1 → (s.serve .next).1 = .next false →
      (∀ bs, store.execute path = .ok bs → ∃ taken rest pulled, bs = taken ++ rest ∧
        taken.mapM (Binding.told selected store) = .ok pulled ∧
        (match t.results.error? with
          | none => rest = []
          | some e => (∃ b tail, rest = b :: tail ∧ b.told selected store = .error e) ∨
            e = .canceled ∧ s.token.canceledAt taken.length = true) ∧
        (∀ k, s.results.walk.produced ≤ k → k < taken.length → s.token.canceledAt k = false) ∧
        List.Forall₂ (Document.WrittenAs v)
          (if t.results.error?.isSome then (Record.runs pulled).dropLast else Record.runs pulled)
          (begun.emitted before)) ∧
      (∀ e, store.execute path = .error e →
        begun.emitted before = [] ∧ t.results.error? ≠ none) ∧
      ∀ after, ∀ a ∈ (t.run after).1, a.Silent := by
  intro begun s t hopen hstop
  let r : RecordWalk := ⟨.start store v path, selected⟩
  have hahead : r.walk.ahead = (store.execute path).mapError .store := rfl
  have hfalse : (s.results.advance s.token).1 = false := Answer.next.inj hstop
  have ht (d : DocumentWalk) (hd : s.results = .documents d) :
      t.results = .documents (d.advance s.token).2 := by
    change (s.results.advance s.token).2 = _
    rw [hd]
    rfl
  have hlooks (k : Nat) : r.canceledAfter s.token k = s.token.canceledAt k :=
    congrArg s.token.canceledAt (Nat.zero_add k)
  refine ⟨fun bs hbs => ?_, fun e he => ?_, ?_⟩
  · rw [hbs] at hahead
    obtain ⟨taken, rest, pulled, docs, d, hd, rfl, hunderway, hemitted⟩ :=
      exists_underway token r bs hahead before hopen
    obtain ⟨more, ahead, records, rfl, htold, hlive, -, hends⟩ := hunderway.advance s.token
    obtain ⟨hreason, hdocs⟩ := hends (by rwa [hd] at hfalse)
    rw [ht d hd]
    refine ⟨taken ++ more, ahead, pulled ++ records, (List.append_assoc _ _ _).symm, htold, ?_,
      ?_, ?_⟩
    · change match (d.advance s.token).2.error? with
        | none => _
        | some e => _
      cases herror : (d.advance s.token).2.error? with
      | none =>
        rw [herror] at hreason
        exact hreason
      | some e =>
        rw [herror] at hreason
        exact hreason.imp_right fun hcancel => ⟨hcancel.1, (hlooks _).symm.trans hcancel.2⟩
    · intro k hk hlt
      -- So many matches had been come to before the last request.
      obtain ⟨state, hsource⟩ := hunderway.source
      have hproduced : s.results.walk.produced = taken.length := by
        rw [hd, Results.walk, hsource]
        exact Nat.zero_add _
      exact (hlooks k).symm.trans (hlive k (hproduced ▸ hk) hlt)
    · have hruns := DocumentWalk.forall₂_completed (d.advance s.token).2.records
        (Document.tells_joinRuns_each v (pulled ++ records))
      rw [hemitted, List.forall₂_map_right_iff, hdocs]
      exact hruns.imp fun run doc htells => Document.writtenAs_of_tells run doc htells
  · rw [he] at hahead
    obtain ⟨hd, hemitted⟩ := unmoved_of_ahead_error token r _ hahead before hopen
    refine ⟨hemitted, ?_⟩
    rw [ht _ hd]
    exact (DocumentWalk.advance_of_ahead_error _ rfl _ hahead s.token).2
  · have hs : s.results.Orderly := orderly_run begun
      (begun.results.orderly_of_unstarted (.documents _ _ _ _ _)) before
    exact silent_of_over t (s.results.over_of_advance hs hfalse)

/-- Whom two people like, in a store that has lost the last of the three who are liked, and in one
that has not, where somebody cancels while the last document is put together. Either way the
document of the first one is given out when the second one is come to, and the document of that one
is withheld although one of its two matches was read, or both of them. -/
theorem run_withholds_lost_node :
    let g := Graph.ofQuads [.ofIris "alice" "likes" "bob" "", .ofIris "bob" "likes" "carol" "",
      .ofIris "bob" "likes" "dan" ""]
    let losing := (Faults.mk false false false false [] [⟨4⟩]).apply g.toStore
    let likes : Path := .save (.fixed [⟨0⟩, ⟨2⟩]) .forward .all "likes"
    let begun := adjacent .live ⟨.start losing .standard likes, []⟩
    let interrupted := adjacent ⟨fun n => 3 ≤ n⟩ ⟨.start g.toStore .standard likes, []⟩
    let ended (s : Session) := (((s.run [.next]).2).serve .next).2
    let alice : Json :=
      .object [("@id", .string "alice"), ("likes", .array [.object [("@id", .string "bob")]])]
    (.next false ∉ (begun.run [.next]).1 ∧
      ((begun.run [.next]).2.serve .next).1 = .next false ∧
      (ended begun).results.error?.isSome ∧ begun.emitted [.next] = [alice] ∧
      (∃ pulled, (Record.runs pulled).length = 2 ∧
        List.Forall₂ (Document.WrittenAs .standard) (Record.runs pulled).dropLast [alice]) ∧
      ∀ after, ∀ a ∈ ((ended begun).run after).1, a.Silent) ∧
    .next false ∉ (interrupted.run [.next]).1 ∧
      ((interrupted.run [.next]).2.serve .next).1 = .next false ∧
      (ended interrupted).results.error? = some .canceled ∧
      interrupted.emitted [.next] = [alice] ∧
      ∃ pulled, 3 ≤ pulled.length ∧ (Record.runs pulled).length = 2 ∧
        List.Forall₂ (Document.WrittenAs .standard) (Record.runs pulled).dropLast [alice] := by
  intro g losing likes begun interrupted ended alice
  have hnext : (begun.serve .next).1 = .next true := congrArg Answer.next (by decide +kernel)
  have hstop : ((begun.run [.next]).2.serve .next).1 = .next false :=
    congrArg Answer.next (by decide +kernel)
  have herror : (ended begun).results.error?.isSome = true := by decide +kernel
  have hnext' : (interrupted.serve .next).1 = .next true :=
    congrArg Answer.next (by decide +kernel)
  have hstop' : ((interrupted.run [.next]).2.serve .next).1 = .next false :=
    congrArg Answer.next (by decide +kernel)
  have herror' : (ended interrupted).results.error?.map QueryError.isFatal = some false := by
    decide +kernel
  have hjson : Document.toJson ⟨.iri "alice", [("likes", [.reference "bob"])]⟩ = alice := by
    with_unfolding_all rfl
  have halice : begun.emitted [.next] = [alice] := by
    rw [← hjson]
    with_unfolding_all rfl
  have halice' : interrupted.emitted [.next] = [alice] := by
    rw [← hjson]
    with_unfolding_all rfl
  have hopen : Answer.next false ∉ (begun.run [.next]).1 := by
    rw [run, hnext]
    simp [run]
  have hopen' : Answer.next false ∉ (interrupted.run [.next]).1 := by
    rw [run, hnext']
    simp [run]
  have hcanceled : (ended interrupted).results.error? = some .canceled := by
    obtain ⟨e, he, hfatal⟩ := Option.map_eq_some_iff.mp herror'
    rw [he]
    cases e with
    | canceled => rfl
    | _ => cases hfatal
  have htwo (pulled : List Record) (h : List.Forall₂ (Document.WrittenAs .standard)
      (Record.runs pulled).dropLast [alice]) : (Record.runs pulled).length = 2 := by
    have hlength := h.length_eq
    rw [List.length_dropLast, List.length_singleton] at hlength
    omega
  obtain ⟨bs, hbs⟩ : ∃ bs, losing.execute likes = .ok bs := ⟨_, rfl⟩
  obtain ⟨bs', hbs'⟩ : ∃ bs, g.toStore.execute likes = .ok bs := ⟨_, rfl⟩
  obtain ⟨hdocuments, -, hsilent⟩ :=
    run_withholds losing .standard likes [] .live [.next] hopen hstop
  obtain ⟨hdocuments', -, -⟩ :=
    run_withholds g.toStore .standard likes [] ⟨fun n => 3 ≤ n⟩ [.next] hopen' hstop'
  obtain ⟨-, -, pulled, -, -, -, -, hwritten⟩ := hdocuments bs hbs
  obtain ⟨taken, rest, pulled', -, htold, hreason, -, hwritten'⟩ := hdocuments' bs' hbs'
  have hruns : List.Forall₂ (Document.WrittenAs .standard)
      (if (ended begun).results.error?.isSome then (Record.runs pulled).dropLast
        else Record.runs pulled) (begun.emitted [.next]) := hwritten
  have hruns' : List.Forall₂ (Document.WrittenAs .standard)
      (if (ended interrupted).results.error?.isSome then (Record.runs pulled').dropLast
        else Record.runs pulled') (interrupted.emitted [.next]) := hwritten'
  have hlate : match (ended interrupted).results.error? with
      | none => _
      | some e => _ := hreason
  rw [if_pos herror, halice] at hruns
  rw [hcanceled, Option.isSome_some, if_pos rfl, halice'] at hruns'
  rw [hcanceled] at hlate
  have hlength : 3 ≤ taken.length := by
    rcases hlate with ⟨b, -, -, hunread⟩ | ⟨-, hseen⟩
    · exact absurd hunread (b.told_ne_canceled [] g.toStore)
    · exact of_decide_eq_true hseen
  rw [((mapM_eq_ok _ _ _).mp htold).length_eq] at hlength
  exact ⟨⟨hopen, hstop, herror, halice, ⟨pulled, htwo pulled hruns, hruns⟩, hsilent⟩,
    hopen', hstop', hcanceled, halice', pulled', hlength, htwo pulled' hruns', hruns'⟩

end Session

end QuadGraph
