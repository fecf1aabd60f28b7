import QuadGraph.Proofs.Query.Results
import QuadGraph.Store.Faults
import QuadGraph.Store.Graph

/-! Sessions: results that a caller walks by requests in any order, and may cancel at any time. What
has been answered about the end of the results is never taken back. -/
namespace QuadGraph

/-- What a caller may ask for. -/
inductive Request
  | next
  | result
  | error
  | cancel
deriving DecidableEq

inductive Answer
  /-- Whether there is a next result. -/
  | next (found : Bool)
  | result (json : Option Json)
  | error (reason : Option QueryError)
  | canceled

/-- An answer that brings no result. -/
def Answer.Silent : Answer → Prop
  | .next found => found = false
  | .result json => json = none
  | .error _ => True
  | .canceled => True

/-- Results that are being walked, and the token by which they may be canceled. The caller has it,
and so may somebody else. -/
structure Session where
  results : Results
  token : Token

namespace Session

/-- The answer to one request. Canceling is for good. -/
def serve (s : Session) : Request → Answer × Session
  | .next =>
    (.next (s.results.advance s.token).1, { s with results := (s.results.advance s.token).2 })
  | .result => (.result s.results.result.1, { s with results := s.results.result.2 })
  | .error => (.error s.results.error?, s)
  | .cancel => (.canceled, { s with token := .canceled })

/-- The answers to requests, one after the other. -/
def run (s : Session) : List Request → List Answer × Session
  | [] => ([], s)
  | request :: rest =>
    ((s.serve request).1 :: ((s.serve request).2.run rest).1, ((s.serve request).2.run rest).2)

/-- One answer after the other: what every one of the requests keeps true stays true, and whatever
this makes true of single answers is true of all. -/
theorem run_meets (P : Session → Prop) (A : Answer → Prop) (requests : List Request)
    (h : ∀ s, P s → ∀ request ∈ requests, A (s.serve request).1 ∧ P (s.serve request).2)
    (s : Session) (hs : P s) : (∀ a ∈ (s.run requests).1, A a) ∧ P (s.run requests).2 := by
  induction requests generalizing s with
  | nil => exact ⟨nofun, hs⟩
  | cons request rest ih =>
    obtain ⟨hanswer, hnext⟩ := h s hs request List.mem_cons_self
    obtain ⟨hanswers, hlast⟩ :=
      ih (fun s hs other hmem => h s hs other (List.mem_cons_of_mem request hmem)) _ hnext
    exact ⟨List.forall_mem_cons.mpr ⟨hanswer, hanswers⟩, hlast⟩

theorem orderly_serve (s : Session) (h : s.results.Orderly) (request : Request) :
    (s.serve request).2.results.Orderly := by
  cases request with
  | next => exact s.results.orderly_advance h
  | result => exact s.results.orderly_result h
  | error => exact h
  | cancel => exact h

theorem orderly_run (s : Session) (h : s.results.Orderly) (requests : List Request) :
    (s.run requests).2.results.Orderly :=
  (run_meets (·.results.Orderly) (fun _ => True) requests
    (fun s hs request _ => ⟨trivial, s.orderly_serve hs request⟩) s h).2

/-- Results that are over bring none, and stay over. -/
theorem over_serve (s : Session) (h : s.results.Over) (request : Request) :
    (s.serve request).1.Silent ∧ (s.serve request).2.results.Over := by
  cases request with
  | next => exact s.results.advance_of_over h
  | result =>
    rw [serve, s.results.result_of_over h]
    exact ⟨rfl, h⟩
  | error => exact ⟨trivial, h⟩
  | cancel => exact ⟨trivial, h⟩

theorem silent_of_over (s : Session) (h : s.results.Over) (requests : List Request) :
    ∀ a ∈ (s.run requests).1, a.Silent :=
  (run_meets (·.results.Over) Answer.Silent requests
    (fun s hs request _ => s.over_serve hs request) s h).1

/-- A reason for which the walk was stopped stays the reason. -/
theorem error?_run (s : Session) (h : s.results.Orderly) (e : QueryError)
    (he : s.results.error? = some e) (requests : List Request) :
    (s.run requests).2.results.error? = some e := by
  refine (run_meets (fun s => s.results.Orderly ∧ s.results.error? = some e) (fun _ => True)
    requests (fun s hs request _ => ⟨trivial, s.orderly_serve hs.1 request, ?_⟩) s ⟨h, he⟩).2.2
  cases request with
  | next => exact s.results.error?_advance hs.1 e hs.2
  | result => exact s.results.error?_result e hs.2
  | error => exact hs.2
  | cancel => exact hs.2

/-- Results at one of them, or over for a reason. -/
def Settled (s : Session) : Prop :=
  s.results.Present ∨ (∃ e, s.results.error? = some e) ∧ s.results.Over

/-- Reading what has been come to brings it, or the reason why it cannot be read ends it all. -/
theorem settled_result (s : Session) (h : s.Settled) :
    (s.serve .result).2.Settled ∧ ((s.serve .result).1 = .result none →
      (∃ e, (s.serve .result).2.results.error? = some e) ∧ (s.serve .result).2.results.Over) := by
  rcases h with hpresent | ⟨⟨e, he⟩, hover⟩
  · rcases s.results.result_of_present hpresent with ⟨json, hjson⟩ | ⟨-, hreason⟩
    · rw [serve, hjson]
      exact ⟨Or.inl hpresent, nofun⟩
    · exact ⟨Or.inr hreason, fun _ => hreason⟩
  · rw [serve, s.results.result_of_over hover]
    exact ⟨Or.inr ⟨⟨e, he⟩, hover⟩, fun _ => ⟨⟨e, he⟩, hover⟩⟩

/-- Until the caller goes on, results that have been come to stay settled. -/
theorem settled_run (s : Session) (h : s.Settled) (requests : List Request)
    (hnext : Request.next ∉ requests) : (s.run requests).2.Settled := by
  refine (run_meets Settled (fun _ => True) requests
    (fun s hs request hmem => ⟨trivial, ?_⟩) s h).2
  cases request with
  | next => exact absurd hmem hnext
  | result => exact (s.settled_result hs).1
  | error => exact hs
  | cancel => exact hs

/-- The requests by which a number of results are gone through, with the one that finds no more. -/
def rounds : Nat → List Request
  | 0 => [.next]
  | n + 1 => .next :: .result :: rounds n

/-- Where going through all results ends without a reason, every result that the walk came to has
been read: the same requests made one by one bring these results and nothing else. -/
theorem run_rounds (token : Token) (r : Results) (h : r.Orderly)
    (hnone : (r.drain token).2.error? = none) :
    (run ⟨r, token⟩ (rounds (r.drain token).1.length)).1 =
      ((r.drain token).1.flatMap fun json => [.next true, .result (some json)]) ++
        [.next false] := by
  -- By induction on going through the results, one round of the same requests for each of them.
  fun_induction Results.drain token r with
  | case1 r r' hadvance => simp [rounds, run, serve, hadvance]
  | case2 r r' hadvance found next hresult others last hdrain ih =>
    rw [hdrain] at ih
    have hcome : (r.advance token).1 = true := by rw [hadvance]
    have hpresent := r.present_of_advance h hcome
    have horderly : (r.advance token).2.Orderly := r.orderly_advance h
    rw [hadvance] at hpresent horderly
    rcases r'.result_of_present hpresent with ⟨json, hjson⟩ | ⟨-, ⟨e, he⟩, -⟩
    · cases hresult.symm.trans hjson
      have hrest := ih horderly hnone
      simp [rounds, run, serve, hadvance, hjson, hrest]
    · -- The reason why the result could not be read would still be there at the end.
      have horderly' := r'.orderly_result horderly
      rw [hresult] at he horderly'
      have hlast : (next.drain token).2.error? = some e := next.error?_drain horderly' e he
      rw [hdrain] at hlast
      cases hlast.symm.trans hnone

/-- What has been answered about the end is final. Once there is no next result there is none ever
after, and a reason that has been given stays the reason. While there are results there is no
reason, and a result that cannot be read is the end and has one. So results are collected only if
all of them have been read. -/
theorem run_final (r : Results) (hr : r.Unstarted) (token : Token) (before : List Request) :
    let s := (run ⟨r, token⟩ before).2
    ((s.serve .next).1 = .next false →
      ∀ after, ∀ a ∈ ((s.serve .next).2.run after).1, a.Silent) ∧
    (∀ e, (s.serve .error).1 = .error (some e) →
      ∀ after, ((s.run after).2.serve .error).1 = .error (some e)) ∧
    ((s.serve .next).1 = .next true → ((s.serve .next).2.serve .error).1 = .error none) ∧
    ((s.serve .next).1 = .next true → ∀ between, .next ∉ between →
      let t := ((s.serve .next).2.run between).2
      (t.serve .result).1 = .result none →
        (∃ e, ((t.serve .result).2.serve .error).1 = .error (some e)) ∧
        ∀ after, ∀ a ∈ ((t.serve .result).2.run after).1, a.Silent) ∧
    ∀ found, (s.results.collect s.token).1 = .ok found →
      (s.run (rounds found.length)).1 =
        (found.flatMap fun json => [.next true, .result (some json)]) ++ [.next false] := by
  intro s
  have hs : s.results.Orderly := orderly_run ⟨r, token⟩ (r.orderly_of_unstarted hr) before
  have hcome (h : (s.serve .next).1 = .next true) : (s.results.advance s.token).1 = true :=
    Answer.next.inj h
  refine ⟨?_, ?_, ?_, ?_, ?_⟩
  -- Where there is no next result, the results are over.
  · intro h
    apply silent_of_over
    exact s.results.over_of_advance hs (Answer.next.inj h)
  · intro e he after
    have hreason := s.error?_run hs e (Answer.error.inj he) after
    exact congrArg Answer.error hreason
  · intro h
    exact congrArg Answer.error (s.results.error?_of_advance hs (hcome h))
  -- A result that has been come to and cannot be read has ended the results, then or earlier.
  · intro h between hbetween t hnone
    have hsettled : (s.serve .next).2.Settled := Or.inl (s.results.present_of_advance hs (hcome h))
    have ht : t.Settled := settled_run _ hsettled between hbetween
    obtain ⟨⟨e, he⟩, hover⟩ := (t.settled_result ht).2 hnone
    exact ⟨⟨e, congrArg Answer.error he⟩, silent_of_over _ hover⟩
  · intro found hfound
    obtain ⟨hnone, rfl⟩ := (s.results.collect_eq_ok found).mp hfound
    exact run_rounds s.token s.results hs hnone

/-- Whom somebody likes, in a store that has lost the liked person: there is a next match, but it
cannot be read, and that is the end. Whoever likes can be read, and all of that is collected. -/
theorem run_final_lost_node :
    let store := (Graph.ofQuads [.ofIris "alice" "likes" "bob" ""]).toStore
    let lossy := (Faults.mk false false false false [] [⟨2⟩]).apply store
    let liked : Path := .tag (.follow (.fixed [⟨0⟩]) (.one .forward) .all) "who"
    let s : Session := ⟨.records ⟨.start lossy .standard liked, []⟩, .live⟩
    let ended := (s.run [.next, .result]).2
    let likers : Session := ⟨.values (.start lossy .standard (.fixed [⟨0⟩])), .live⟩
    ((s.serve .next).1 = .next true ∧ ((s.serve .next).2.serve .error).1 = .error none) ∧
    (((s.serve .next).2.serve .result).1 = .result none ∧
      ∃ e, (ended.serve .error).1 = .error (some e) ∧
        ∀ after, ((ended.run after).2.serve .error).1 = .error (some e)) ∧
    ((ended.serve .next).1 = .next false ∧
      ∀ after, ∀ a ∈ ((ended.serve .next).2.run after).1, a.Silent) ∧
    ∃ found, (likers.results.collect .live).1 = .ok found ∧ found.length = 1 ∧
      (likers.run (rounds found.length)).1 =
        (found.flatMap fun json => [.next true, .result (some json)]) ++ [.next false] := by
  intro store lossy liked s ended likers
  have hnext : (s.serve .next).1 = .next true := congrArg Answer.next (by decide +kernel)
  have hresult : ((s.serve .next).2.serve .result).1 = .result none :=
    congrArg Answer.result (Option.isNone_iff_eq_none.mp (by decide +kernel))
  have hlast : (ended.serve .next).1 = .next false := congrArg Answer.next (by decide +kernel)
  obtain ⟨-, -, hnone, hmissing, -⟩ := run_final s.results (.records _ _ _ _) .live []
  obtain ⟨hsilent, hreason, -⟩ := run_final s.results (.records _ _ _ _) .live [.next, .result]
  obtain ⟨⟨e, he⟩, -⟩ := hmissing hnext [] nofun hresult
  refine ⟨⟨hnext, hnone hnext⟩, ⟨hresult, e, he, hreason e he⟩, ⟨hlast, hsilent hlast⟩, ?_⟩
  have hfound : (likers.results.collect .live).1 = .ok (likers.results.drain .live).1 :=
    (likers.results.collect_eq_ok _).mpr
      ⟨Option.isNone_iff_eq_none.mp (by decide +kernel), rfl⟩
  obtain ⟨-, -, -, -, hcollected⟩ := run_final likers.results (.values _ _ _) .live []
  exact ⟨_, hfound, by decide +kernel, hcollected _ hfound⟩

end Session

end QuadGraph
