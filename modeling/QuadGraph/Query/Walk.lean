import QuadGraph.JsonLd
import QuadGraph.Path.Evaluation

/-!
Walks along the matches of a path, one match at a time. The path is evaluated when the first match
is asked for, and terms are read only for results. A walk that has ended stays ended.
-/
namespace QuadGraph

/-- A token by which somebody else may cancel a walk, at any time while it goes on. It is looked at
before every match. -/
structure Token where
  /-- Whether it shows that the walk is canceled when it is looked at after a number of matches. -/
  canceledAt : Nat → Bool

namespace Token

/-- A token that nobody cancels. -/
def live : Token :=
  ⟨fun _ => false⟩

def canceled : Token :=
  ⟨fun _ => true⟩

@[simp] theorem canceledAt_live (produced : Nat) : live.canceledAt produced = false :=
  rfl

@[simp] theorem canceledAt_canceled (produced : Nat) : canceled.canceledAt produced = true :=
  rfl

end Token

/-- Where a walk stands. -/
inductive WalkState
  | unopened
  /-- At a match, with those still to come. -/
  | standing (current : Binding) (rest : List Binding)
  /-- Behind the last match, or stopped for a reason. -/
  | closed (reason : Option QueryError)

structure Walk where
  store : QuadStore
  vocabulary : Vocabulary
  path : Path
  state : WalkState
  /-- The number of matches that the walk has come to. -/
  produced : Nat

namespace Walk

def start (store : QuadStore) (vocabulary : Vocabulary) (path : Path) : Walk :=
  ⟨store, vocabulary, path, .unopened, 0⟩

def fail (w : Walk) (error : QueryError) : Walk :=
  { w with state := .closed (some error) }

/-- The match at which the walk stands. -/
def binding? (w : Walk) : Option Binding :=
  match w.state with
  | .standing current _ => some current
  | _ => none

/-- Why the walk was stopped, if it was. -/
def error? (w : Walk) : Option QueryError :=
  match w.state with
  | .closed reason => reason
  | _ => none

/-- Goes to the first of some matches. -/
def goTo (w : Walk) : List Binding → Bool × Walk
  | [] => (false, { w with state := .closed none })
  | b :: rest => (true, { w with state := .standing b rest, produced := w.produced + 1 })

/-- Goes to the next match, and says whether there is one. A walk that is canceled by now stops
here. -/
def advance (token : Token) (w : Walk) : Bool × Walk :=
  match w.state with
  | .closed _ => (false, w)
  | .unopened =>
    if token.canceledAt w.produced then (false, w.fail .canceled)
    else match w.store.execute w.path with
      | .ok bindings => w.goTo bindings
      | .error e => (false, w.fail (.store e))
  | .standing _ rest =>
    if token.canceledAt w.produced then (false, w.fail .canceled) else w.goTo rest

/-- The term of a node. A node without one stops the walk. -/
def resolve (w : Walk) (node : NodeId) : Option Term × Walk :=
  match w.store.termOf node with
  | .ok (some t) => (some t, w)
  | .ok none => (none, w.fail (.resolution node))
  | .error e => (none, w.fail (.store e))

/-- The term of the node at which the walk stands. -/
def term (w : Walk) : Option Term × Walk :=
  match w.binding? with
  | some b => w.resolve b.node
  | none => (none, w)

def encode (w : Walk) (t : Term) : JsonLd :=
  JsonLd.encode w.vocabulary t

/-- The result at which the walk stands. -/
def result (w : Walk) : Option Json × Walk :=
  let (t, w) := w.term
  (t.map fun t => (w.encode t).toJson, w)

/-- A bound on the number of matches still to come. -/
def bound (w : Walk) : Nat :=
  match w.state with
  | .unopened =>
    match w.store.execute w.path with
    | .ok bindings => bindings.length + 1
    | .error _ => 0
  | .standing _ rest => rest.length
  | .closed _ => 0

@[simp] theorem bound_fail (w : Walk) (e : QueryError) : (w.fail e).bound = 0 := rfl

theorem bound_goTo_lt {w : Walk} {bindings : List Binding} (h : (w.goTo bindings).1 = true) :
    (w.goTo bindings).2.bound < bindings.length := by
  cases bindings with
  | nil => simp [goTo] at h
  | cons b rest => simp [goTo, bound]

theorem bound_goTo_le (w : Walk) (bindings : List Binding) :
    (w.goTo bindings).2.bound ≤ bindings.length := by
  cases bindings with
  | nil => exact Nat.le_refl 0
  | cons b rest => exact Nat.le_succ rest.length

/-- Every match that a walk comes to was still to come. -/
theorem bound_advance_lt {token : Token} {w : Walk} (h : (w.advance token).1 = true) :
    (w.advance token).2.bound < w.bound := by
  unfold advance at h ⊢
  split at h
  · cases h
  · next hstate =>
    split at h
    · cases h
    · next hlive =>
      rw [if_neg hlive]
      split at h
      · next bindings hexec =>
        have hbound : w.bound = bindings.length + 1 := by simp only [bound, hstate, hexec]
        rw [hbound]
        exact Nat.lt_succ_of_lt (bound_goTo_lt h)
      · cases h
  · next rest hstate =>
    split at h
    · cases h
    · next hlive =>
      rw [if_neg hlive]
      have hbound : w.bound = rest.length := by simp only [bound, hstate]
      rw [hbound]
      exact bound_goTo_lt h

theorem bound_advance_le (token : Token) (w : Walk) : (w.advance token).2.bound ≤ w.bound := by
  unfold advance
  split
  · exact Nat.le_refl _
  · next hstate =>
    split
    · exact Nat.zero_le _
    · split
      · next bindings hexec =>
        have hbound : w.bound = bindings.length + 1 := by simp only [bound, hstate, hexec]
        rw [hbound]
        exact Nat.le_succ_of_le (w.bound_goTo_le bindings)
      · exact Nat.zero_le _
  · next rest hstate =>
    split
    · exact Nat.zero_le _
    · have hbound : w.bound = rest.length := by simp only [bound, hstate]
      rw [hbound]
      exact w.bound_goTo_le rest

/-- Reading a term brings no more matches. -/
theorem bound_resolve_le (w : Walk) (node : NodeId) : (w.resolve node).2.bound ≤ w.bound := by
  unfold resolve
  split <;> simp

theorem bound_term_le (w : Walk) : w.term.2.bound ≤ w.bound := by
  unfold term
  split
  · exact bound_resolve_le w _
  · exact Nat.le_refl _

/-- Goes on to the end, and counts the matches on the way. -/
def exhaust (token : Token) (w : Walk) : Nat × Walk :=
  match _h : w.advance token with
  | (false, w') => (0, w')
  | (true, w') =>
    let (n, last) := exhaust token w'
    (n + 1, last)
termination_by w.bound
decreasing_by
  have := @bound_advance_lt token w (by rw [_h])
  rw [_h] at this
  exact this

end Walk

end QuadGraph
