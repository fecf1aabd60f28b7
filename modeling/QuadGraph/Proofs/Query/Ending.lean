import QuadGraph.Proofs.Query.Reading
import QuadGraph.Query.Results

/-! How walks end. A walk that does not come to a match is closed, and a closed walk stays as it is;
reading terms leaves a walk as it is or closes it with the reason. Everything that is made from
matches, such as records, a count or documents, ends together with its walk or after it. -/
namespace QuadGraph

variable {token : Token}

namespace Walk

/-- A walk that is behind its last match, or was stopped. -/
def Closed (w : Walk) : Prop :=
  ∃ reason, w.state = .closed reason

/-- A walk at a match. -/
def Standing (w : Walk) : Prop :=
  ∃ b, w.binding? = some b

theorem closed_fail (w : Walk) (e : QueryError) : (w.fail e).Closed :=
  ⟨some e, rfl⟩

theorem closed_of_error (w : Walk) (e : QueryError) (h : w.error? = some e) : w.Closed := by
  unfold error? at h
  split at h
  · next reason hclosed => exact ⟨reason, hclosed⟩
  · cases h

theorem error?_of_standing (w : Walk) (h : w.Standing) : w.error? = none := by
  obtain ⟨b, hb⟩ := h
  unfold binding? at hb
  split at hb
  · next current rest hstanding => rw [error?, hstanding]
  · cases hb

theorem binding?_of_closed (w : Walk) (h : w.Closed) : w.binding? = none := by
  obtain ⟨reason, hclosed⟩ := h
  rw [binding?, hclosed]

theorem advance_of_closed (w : Walk) (h : w.Closed) : w.advance token = (false, w) := by
  obtain ⟨reason, hclosed⟩ := h
  rw [advance, hclosed]

theorem goTo_cases (w : Walk) (found : List Binding) :
    ((w.goTo found).1 = true ∧ (w.goTo found).2.Standing) ∨
      ((w.goTo found).1 = false ∧ (w.goTo found).2.Closed) := by
  cases found with
  | nil => exact Or.inr ⟨rfl, none, rfl⟩
  | cons b rest => exact Or.inl ⟨rfl, b, rfl⟩

/-- A walk comes to a match, or it is closed afterwards. -/
theorem advance_cases (token : Token) (w : Walk) :
    ((w.advance token).1 = true ∧ (w.advance token).2.Standing) ∨
      ((w.advance token).1 = false ∧ (w.advance token).2.Closed) := by
  unfold advance
  split
  · next reason hclosed => exact Or.inr ⟨rfl, reason, hclosed⟩
  · split
    · exact Or.inr ⟨rfl, w.closed_fail _⟩
    -- The walk is opened here, which the store may refuse.
    · split
      · exact w.goTo_cases _
      · exact Or.inr ⟨rfl, w.closed_fail _⟩
  · split
    · exact Or.inr ⟨rfl, w.closed_fail _⟩
    · exact w.goTo_cases _

theorem standing_of_advance (w : Walk) (h : (w.advance token).1 = true) :
    (w.advance token).2.Standing := by
  rcases w.advance_cases token with ⟨-, hstanding⟩ | ⟨hfalse, -⟩
  · exact hstanding
  · cases h.symm.trans hfalse

theorem closed_of_advance (w : Walk) (h : (w.advance token).1 = false) :
    (w.advance token).2.Closed := by
  rcases w.advance_cases token with ⟨htrue, -⟩ | ⟨-, hclosed⟩
  · cases h.symm.trans htrue
  · exact hclosed

/-- What was read from a walk: something, and the walk stays as it is, or nothing, and the reason
closes the walk. -/
def Reads {α : Type} (w : Walk) (read : Option α × Walk) : Prop :=
  (∃ a, read = (some a, w)) ∨ ∃ e, read = (none, w.fail e)

theorem reads_reading {α : Type} (w : Walk) (read : Except QueryError α) :
    w.Reads (w.reading read) := by
  cases read with
  | ok a => exact Or.inl ⟨a, rfl⟩
  | error e => exact Or.inr ⟨e, rfl⟩

theorem reads_result (w : Walk) (h : w.Standing) : w.Reads w.result := by
  obtain ⟨b, hb⟩ := h
  rw [w.result_eq_reading b hb]
  exact w.reads_reading _

theorem result_of_closed (w : Walk) (h : w.Closed) : w.result = (none, w) := by
  rw [result, term, w.binding?_of_closed h]
  rfl

end Walk

namespace RecordWalk

/-- What was read from the walk of a record walk. -/
def Reads {α : Type} (r : RecordWalk) (read : Option α × RecordWalk) : Prop :=
  (∃ a, read = (some a, r)) ∨ ∃ e, read = (none, { r with walk := r.walk.fail e })

theorem reads_reading {α : Type} (r : RecordWalk) (read : Except QueryError α) :
    r.Reads ((r.walk.reading read).map id fun w => { r with walk := w }) := by
  cases read with
  | ok a => exact Or.inl ⟨a, rfl⟩
  | error e => exact Or.inr ⟨e, rfl⟩

theorem reads_subject (r : RecordWalk) (h : r.walk.Standing) : r.Reads r.subject := by
  obtain ⟨b, hb⟩ := h
  rw [r.subject_eq_reading b hb]
  exact r.reads_reading _

theorem reads_tags (r : RecordWalk) (h : r.walk.Standing) : r.Reads r.tags := by
  obtain ⟨b, hb⟩ := h
  rw [r.tags_eq_reading b hb]
  exact r.reads_reading _

theorem tags_of_closed (r : RecordWalk) (h : r.walk.Closed) : r.tags = (none, r) := by
  simp only [tags, r.walk.binding?_of_closed h]

/-- However many terms a record takes, the first one that is missing closes the walk. -/
theorem reads_result (r : RecordWalk) (h : r.walk.Standing) : r.Reads r.result := by
  obtain ⟨b, hb⟩ := h
  rw [r.result_eq_reading b hb]
  exact r.reads_reading _

theorem result_of_closed (r : RecordWalk) (h : r.walk.Closed) : r.result = (none, r) := by
  rw [result, r.tags_of_closed h]

/-- A document is pulled from a match, or the walk is closed afterwards. -/
theorem pull_cases (token : Token) (r : RecordWalk) :
    (∃ doc r', r.pull token = (some doc, r') ∧ r'.walk.Standing) ∨
      ∃ r', r.pull token = (none, r') ∧ r'.walk.Closed := by
  have hadvance := r.walk.advance_cases token
  rw [pull, advance]
  cases ha : r.walk.advance token with
  | mk found walk =>
    rw [ha] at hadvance
    rcases hadvance with ⟨rfl, hstanding⟩ | ⟨rfl, hclosed⟩
    -- At a match, first its node is read and then its tags; either may be missing.
    · simp only
      rcases reads_subject { r with walk } hstanding with ⟨t, ht⟩ | ⟨e, he⟩
      · rcases reads_tags { r with walk } hstanding with ⟨tags, htags⟩ | ⟨e, he⟩
        · exact Or.inl ⟨_, _, by rw [ht]; simp only; rw [htags], hstanding⟩
        · exact Or.inr ⟨_, by rw [ht]; simp only; rw [he], walk.closed_fail e⟩
      · exact Or.inr ⟨_, by rw [he], walk.closed_fail e⟩
    · exact Or.inr ⟨_, rfl, hclosed⟩

theorem pull_of_closed (r : RecordWalk) (h : r.walk.Closed) : r.pull token = (none, r) := by
  rw [pull, advance, r.walk.advance_of_closed h]

theorem standing_of_pull (r r' : RecordWalk) (doc : Document)
    (h : r.pull token = (some doc, r')) : r'.walk.Standing := by
  rcases r.pull_cases token with ⟨_, _, hpull, hstanding⟩ | ⟨_, hpull, -⟩
  · cases h.symm.trans hpull
    exact hstanding
  · cases h.symm.trans hpull

theorem closed_of_pull (r r' : RecordWalk) (h : r.pull token = (none, r')) :
    r'.walk.Closed := by
  rcases r.pull_cases token with ⟨_, _, hpull, -⟩ | ⟨_, hpull, hclosed⟩
  · cases h.symm.trans hpull
  · cases h.symm.trans hpull
    exact hclosed

end RecordWalk

namespace CountWalk

/-- Nothing is counted before the first time, when the walk has not begun. -/
def Orderly (c : CountWalk) : Prop :=
  c.emitted = false → c.count = none ∧ c.walk.state = .unopened

theorem advance_of_emitted (c : CountWalk) (h : c.emitted = true) :
    c.advance token = (false, { c with count := none }) := by
  rw [advance, if_pos h]

/-- The first time, all matches are counted, or the walk was stopped and there is no count. -/
theorem advance_cases (token : Token) (c : CountWalk) (h : c.emitted = false) :
    let walk := (c.walk.exhaust token).2
    (walk.error? = none ∧ ∃ n, c.advance token = (true, ⟨walk, some n, true⟩)) ∨
      (walk.error? ≠ none ∧ c.advance token = (false, ⟨walk, c.count, true⟩)) := by
  intro walk
  rw [advance, if_neg (by simp [h])]
  simp only
  split
  · next herror =>
    exact Or.inr ⟨Option.isSome_iff_ne_none.mp herror, rfl⟩
  · next hnone =>
    exact Or.inl ⟨Option.not_isSome_iff_eq_none.mp hnone, _, rfl⟩

/-- Going on brings the count, and nothing has failed, or there is no count any more. -/
theorem count_of_advance (token : Token) (c : CountWalk) (h : c.Orderly) :
    ((c.advance token).1 = true ∧ (c.advance token).2.error? = none ∧
      (c.advance token).2.count ≠ none) ∨
    ((c.advance token).1 = false ∧ (c.advance token).2.count = none) := by
  cases hc : c.emitted with
  | true =>
    rw [c.advance_of_emitted hc]
    exact Or.inr ⟨rfl, rfl⟩
  | false =>
    rcases c.advance_cases token hc with ⟨hnone, n, hadvance⟩ | ⟨-, hadvance⟩
    · rw [hadvance]
      exact Or.inl ⟨rfl, hnone, Option.some_ne_none n⟩
    · rw [hadvance]
      exact Or.inr ⟨rfl, (h hc).1⟩

theorem orderly_advance (c : CountWalk) : (c.advance token).2.Orderly := by
  intro h
  cases h.symm.trans (c.emitted_advance token)

end CountWalk

end QuadGraph
