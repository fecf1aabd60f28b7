import QuadGraph.Query.Count
import QuadGraph.Query.Documents
import QuadGraph.Step.Compilation

/-!
Results of a query. A query is compiled at once and walked on demand; its last step says what its
results are. Collecting goes through all of them and ends with all results or with the reason why
the walk was stopped.
-/
namespace QuadGraph

/-- A walk along the results of a query. -/
inductive Results
  | values (walk : Walk)
  | records (walk : RecordWalk)
  | count (walk : CountWalk)
  | documents (walk : DocumentWalk)

namespace Results

/-- Why the walk was stopped, if it was. -/
def error? : Results → Option QueryError
  | .values w => w.error?
  | .records r => r.error?
  | .count c => c.error?
  | .documents d => d.error?

/-- Goes to the next result, and says whether there is one. -/
def advance (token : Token) : Results → Bool × Results
  | .values w => (w.advance token).map id .values
  | .records r => (r.advance token).map id .records
  | .count c => (c.advance token).map id .count
  | .documents d => (d.advance token).map id .documents

/-- The result to which the walk has gone. There is none where a term is missing, which stops the
walk. -/
def result : Results → Option Json × Results
  | .values w => w.result.map id .values
  | .records r => r.result.map id .records
  | .count c => (c.result, .count c)
  | .documents d => (d.result, .documents d)

/-- A bound on the number of results still to come. -/
def bound : Results → Nat
  | .values w => w.bound
  | .records r => r.walk.bound
  | .count c => if c.emitted then 0 else 1
  | .documents d => d.bound

/-- Every result that a walk comes to was still to come. -/
theorem bound_advance_lt {token : Token} {r : Results} (h : (r.advance token).1 = true) :
    (r.advance token).2.bound < r.bound := by
  cases r with
  | values w => exact Walk.bound_advance_lt h
  | records r => exact Walk.bound_advance_lt (w := r.walk) h
  | count c =>
    cases hc : c.emitted with
    | true => simp [advance, CountWalk.advance, hc] at h
    | false => simp [advance, bound, hc]
  | documents d => exact DocumentWalk.bound_advance_lt h

/-- Reading a result brings no more results. -/
theorem bound_result_le (r : Results) : r.result.2.bound ≤ r.bound := by
  cases r with
  | values w => exact w.bound_term_le
  | records r => exact r.bound_result_le
  | count c => exact Nat.le_refl _
  | documents d => exact Nat.le_refl _

/-- Goes through all results, and gives those that could be read. -/
def drain (token : Token) (r : Results) : List Json × Results :=
  match _h : r.advance token with
  | (false, r') => ([], r')
  | (true, r') =>
    match _hr : r'.result with
    | (found, next) =>
      let (others, last) := drain token next
      (found.toList ++ others, last)
termination_by r.bound
decreasing_by
  have hlt := @bound_advance_lt token r (by rw [_h])
  have hle := r'.bound_result_le
  rw [_h] at hlt
  rw [_hr] at hle
  exact Nat.lt_of_le_of_lt hle hlt

/-- All results, unless the walk was stopped. -/
def collect (token : Token) (r : Results) : Except QueryError (List Json) × Results :=
  let (found, last) := r.drain token
  match last.error? with
  | some e => (.error e, last)
  | none => (.ok found, last)

end Results

namespace Step

variable [RegexEngine]

/-- The results of a step over a store, under a vocabulary. The results of a step that does not
shape them are the terms of its nodes. -/
def results (store : QuadStore) (v : Vocabulary) (step : Step) : Except QueryError Results := do
  match step with
  | .shaped source shape =>
    let path ← compileSource store source v none
    return match shape with
      | .select tags => .records ⟨.start store v path, tags⟩
      | .selectFirst tags => .records ⟨.start store v (.limit path 1), tags⟩
      | .value => .values (.start store v (.limit path 1))
      | .documents grouping => .documents (.start ⟨.start store v path, []⟩ grouping)
      | .count => .count (.start (.start store v path))
  | step => return .values (.start store v (← step.compile store v none))

/-- Carries out a query. -/
def execute (store : QuadStore) (v : Vocabulary) (token : Token) (step : Step) :
    Except QueryError (List Json) := do
  ((← step.results store v).collect token).1

end Step

end QuadGraph
