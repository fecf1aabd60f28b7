import QuadGraph.Query.Walk

/-!
Records: the tags of each match with the terms they stand for.
-/
namespace QuadGraph

/-- A walk whose results are records of some tags, or of all tags if none is selected. -/
structure RecordWalk where
  walk : Walk
  selected : List String

namespace RecordWalk

/-- The key of the node itself in the record of a match without tags. -/
def currentKey : String := "@current"

/-- The tags of a match that count, in the order of their names or as they were selected. A
selected tag that the match does not have is left out. -/
def pick (selected : List String) (b : Binding) : List (String × NodeId) :=
  if selected.isEmpty then b.tags.toList
  else selected.filterMap fun name => b.tags[name]?.map fun node => (name, node)

/-- The terms of named nodes, up to the first that has none, which stops the walk. -/
def resolveAll : List (String × NodeId) → Walk → Option (List (String × Term)) × Walk
  | [], w => (some [], w)
  | (name, node) :: rest, w =>
    match w.resolve node with
    | (none, w) => (none, w)
    | (some t, w) =>
      let (others, w) := resolveAll rest w
      (others.map ((name, t) :: ·), w)

/-- The term of the node at which the walk stands. -/
def subject (r : RecordWalk) : Option Term × RecordWalk :=
  let (t, walk) := r.walk.term
  (t, { r with walk })

/-- The tags of the match at which the walk stands, with their terms. -/
def tags (r : RecordWalk) : Option (List (String × Term)) × RecordWalk :=
  match r.walk.binding? with
  | none => (none, r)
  | some b =>
    let (tags, walk) := resolveAll (pick r.selected b) r.walk
    (tags, { r with walk })

/-- The record of some tags. -/
def record (w : Walk) (tags : List (String × Term)) : Json :=
  Json.ofMembers (tags.map fun (name, t) => (name, (w.encode t).toJson))

/-- The record of the match at which the walk stands. A match without tags is known by its node,
unless tags are selected. -/
def result (r : RecordWalk) : Option Json × RecordWalk :=
  match r.tags with
  | (none, r) => (none, r)
  | (some tags, r) =>
    if tags.isEmpty && r.selected.isEmpty then
      let (t, r) := r.subject
      (t.map fun t => record r.walk [(currentKey, t)], r)
    else (some (record r.walk tags), r)

def advance (token : Token) (r : RecordWalk) : Bool × RecordWalk :=
  let (found, walk) := r.walk.advance token
  (found, { r with walk })

def error? (r : RecordWalk) : Option QueryError :=
  r.walk.error?

theorem bound_resolveAll_le (tags : List (String × NodeId)) (w : Walk) :
    (resolveAll tags w).2.bound ≤ w.bound := by
  induction tags generalizing w with
  | nil => exact Nat.le_refl _
  | cons tag rest ih =>
    have h := w.bound_resolve_le tag.2
    obtain ⟨name, node⟩ := tag
    simp only [resolveAll]
    cases hr : w.resolve node with
    | mk t w' =>
      simp only [hr] at h
      cases t with
      | none => exact h
      | some t => exact Nat.le_trans (ih w') h

theorem bound_subject_le (r : RecordWalk) : r.subject.2.walk.bound ≤ r.walk.bound :=
  r.walk.bound_term_le

theorem bound_tags_le (r : RecordWalk) : r.tags.2.walk.bound ≤ r.walk.bound := by
  unfold tags
  split
  · exact Nat.le_refl _
  · exact bound_resolveAll_le _ _

/-- Reading a record brings no more matches. -/
theorem bound_result_le (r : RecordWalk) : r.result.2.walk.bound ≤ r.walk.bound := by
  have h := r.bound_tags_le
  unfold result
  split
  · next hr => rw [hr] at h; exact h
  · next tags r' hr =>
    rw [hr] at h
    split
    · exact Nat.le_trans r'.bound_subject_le h
    · exact h

end RecordWalk

end QuadGraph
