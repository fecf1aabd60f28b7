import QuadGraph.Proofs.Query.Grouping

/-! How results end, of whatever kind they are. Where there is no next result, there will be none;
where a result cannot be read, the reason ends the walk; and a reason, once it is there, stays. -/
namespace QuadGraph

variable {token : Token}

namespace Results

/-- Results of which none has been asked for, of any kind. -/
inductive Unstarted : Results → Prop
  | values (store v path) : Unstarted (.values (.start store v path))
  | records (store v path selected) : Unstarted (.records ⟨.start store v path, selected⟩)
  | count (store v path) : Unstarted (.count (.start (.start store v path)))
  | documents (store v path selected grouping) :
    Unstarted (.documents (.start ⟨.start store v path, selected⟩ grouping))

/-- What is true of results however they have been walked. -/
def Orderly : Results → Prop
  | .values _ => True
  | .records _ => True
  | .count c => c.Orderly
  | .documents d => d.Orderly

/-- There is no result, and none will come. -/
def Over : Results → Prop
  | .values w => w.Closed
  | .records r => r.walk.Closed
  | .count c => c.emitted = true ∧ c.count = none
  | .documents d => d.Over

/-- The walk stands at a result. -/
def Present : Results → Prop
  | .values w => w.Standing
  | .records r => r.walk.Standing
  | .count c => c.count ≠ none
  | .documents d => d.current ≠ none

theorem orderly_of_unstarted (r : Results) (h : r.Unstarted) : r.Orderly := by
  cases h with
  | values => exact trivial
  | records => exact trivial
  | count => exact fun _ => ⟨rfl, rfl⟩
  | documents => exact ⟨fun h => absurd rfl h, fun _ => rfl, fun h => absurd rfl h⟩

theorem orderly_advance (r : Results) (h : r.Orderly) : (r.advance token).2.Orderly := by
  cases r with
  | values w => exact trivial
  | records r => exact trivial
  | count c => exact c.orderly_advance
  | documents d => exact d.orderly_advance h

theorem orderly_result (r : Results) (h : r.Orderly) : r.result.2.Orderly := by
  cases r with
  | values w => exact trivial
  | records r => exact trivial
  | count c => exact h
  | documents d => exact h

theorem over_of_advance (r : Results) (h : r.Orderly) (hf : (r.advance token).1 = false) :
    (r.advance token).2.Over := by
  cases r with
  | values w => exact w.closed_of_advance hf
  | records r => exact r.walk.closed_of_advance hf
  | count c =>
    rcases c.count_of_advance token h with ⟨htrue, -⟩ | ⟨-, hnone⟩
    · cases hf.symm.trans htrue
    · exact ⟨c.emitted_advance token, hnone⟩
  | documents d => exact d.over_of_advance hf

theorem advance_of_over (r : Results) (h : r.Over) :
    (r.advance token).1 = false ∧ (r.advance token).2.Over := by
  cases r with
  | values w =>
    rw [advance, w.advance_of_closed h]
    exact ⟨rfl, h⟩
  | records r =>
    rw [advance, RecordWalk.advance, r.walk.advance_of_closed h]
    exact ⟨rfl, h⟩
  | count c =>
    rw [advance, c.advance_of_emitted h.1]
    exact ⟨rfl, h.1, rfl⟩
  | documents d => exact d.advance_of_over h

theorem result_of_over (r : Results) (h : r.Over) : r.result = (none, r) := by
  cases r with
  | values w => rw [result, w.result_of_closed h]; rfl
  | records r => rw [result, r.result_of_closed h]; rfl
  | count c => rw [result, CountWalk.result, h.2]; rfl
  | documents d => rw [result, DocumentWalk.result, h.current]; rfl

/-- A result is gone to only if nothing has failed so far. -/
theorem error?_of_advance (r : Results) (h : r.Orderly) (ht : (r.advance token).1 = true) :
    (r.advance token).2.error? = none := by
  cases r with
  | values w => exact Walk.error?_of_standing _ (w.standing_of_advance ht)
  | records r => exact Walk.error?_of_standing _ (r.walk.standing_of_advance ht)
  | count c =>
    rcases c.count_of_advance token h with ⟨-, hnone, -⟩ | ⟨hfalse, -⟩
    · exact hnone
    · cases ht.symm.trans hfalse
  | documents d => exact d.error?_of_advance h ht

/-- Going on does not change the reason for which the walk was stopped. -/
theorem error?_advance (r : Results) (h : r.Orderly) (e : QueryError) (he : r.error? = some e) :
    (r.advance token).2.error? = some e := by
  cases r with
  | values w =>
    rw [advance, w.advance_of_closed (w.closed_of_error e he)]
    exact he
  | records r =>
    rw [advance, RecordWalk.advance, r.walk.advance_of_closed (r.walk.closed_of_error e he)]
    exact he
  | count c =>
    cases hc : c.emitted with
    | true =>
      rw [advance, c.advance_of_emitted hc]
      exact he
    | false =>
      -- A walk that has not begun was not stopped either.
      obtain ⟨reason, hclosed⟩ := c.walk.closed_of_error e he
      cases hclosed.symm.trans (h hc).2
  | documents d => exact d.error?_advance e he

theorem present_of_advance (r : Results) (h : r.Orderly) (ht : (r.advance token).1 = true) :
    (r.advance token).2.Present := by
  cases r with
  | values w => exact w.standing_of_advance ht
  | records r => exact r.walk.standing_of_advance ht
  | count c =>
    rcases c.count_of_advance token h with ⟨-, -, hcount⟩ | ⟨hfalse, -⟩
    · exact hcount
    · cases ht.symm.trans hfalse
  | documents d => exact d.current_of_advance ht

/-- Where the walk stands at a result, that result is read and the walk stays as it is, or the
reason why it cannot be read ends the walk. -/
theorem result_of_present (r : Results) (h : r.Present) :
    (∃ json, r.result = (some json, r)) ∨
      (r.result.1 = none ∧ (∃ e, r.result.2.error? = some e) ∧ r.result.2.Over) := by
  cases r with
  | values w =>
    rcases w.reads_result h with ⟨json, hjson⟩ | ⟨e, he⟩
    · exact Or.inl ⟨json, by rw [result, hjson]; rfl⟩
    · rw [result, he]
      exact Or.inr ⟨rfl, ⟨e, rfl⟩, w.closed_fail e⟩
  | records r =>
    rcases r.reads_result h with ⟨json, hjson⟩ | ⟨e, he⟩
    · exact Or.inl ⟨json, by rw [result, hjson]; rfl⟩
    · rw [result, he]
      exact Or.inr ⟨rfl, ⟨e, rfl⟩, r.walk.closed_fail e⟩
  | count c =>
    obtain ⟨n, hn⟩ := Option.ne_none_iff_exists'.mp h
    exact Or.inl ⟨_, by rw [result, CountWalk.result, hn]; rfl⟩
  | documents d =>
    obtain ⟨doc, hdoc⟩ := Option.ne_none_iff_exists'.mp h
    exact Or.inl ⟨doc.toJson, by rw [result, DocumentWalk.result, hdoc]; rfl⟩

/-- Reading does not change the reason for which the walk was stopped. -/
theorem error?_result (r : Results) (e : QueryError) (he : r.error? = some e) :
    r.result.2.error? = some e := by
  cases r with
  | values w =>
    rw [result, w.result_of_closed (w.closed_of_error e he)]
    exact he
  | records r =>
    rw [result, r.result_of_closed (r.walk.closed_of_error e he)]
    exact he
  | count c => exact he
  | documents d => exact he

/-- Going through all results does not either. -/
theorem error?_drain (r : Results) (h : r.Orderly) (e : QueryError) (he : r.error? = some e) :
    (r.drain token).2.error? = some e := by
  fun_induction drain token r with
  | case1 r r' hadvance =>
    have hreason : (r.advance token).2.error? = some e := r.error?_advance h e he
    rwa [hadvance] at hreason
  | case2 r r' hadvance found next hresult others last hdrain ih =>
    have hreason : (r.advance token).2.error? = some e := r.error?_advance h e he
    have horderly : (r.advance token).2.Orderly := r.orderly_advance h
    rw [hadvance] at hreason horderly
    have hreason' := r'.error?_result e hreason
    have horderly' := r'.orderly_result horderly
    rw [hresult] at hreason' horderly'
    rw [hdrain] at ih
    exact ih horderly' hreason'

theorem collect_eq_ok (r : Results) (found : List Json) :
    (r.collect token).1 = .ok found ↔
      (r.drain token).2.error? = none ∧ (r.drain token).1 = found := by
  unfold collect
  simp only
  split
  · next e he => simp [he]
  · next hnone => simp [hnone]

end Results

end QuadGraph
