import QuadGraph.Query.Walk

/-!
Counting: one result, the number of matches. No term is read for it.
-/
namespace QuadGraph

structure CountWalk where
  walk : Walk
  count : Option Nat
  emitted : Bool

namespace CountWalk

def start (walk : Walk) : CountWalk :=
  ⟨walk, none, false⟩

def error? (c : CountWalk) : Option QueryError :=
  c.walk.error?

/-- Counts all matches the first time; there is nothing to go on to afterwards. -/
def advance (token : Token) (c : CountWalk) : Bool × CountWalk :=
  if c.emitted then (false, { c with count := none })
  else
    let (n, walk) := c.walk.exhaust token
    if walk.error?.isSome then (false, { c with walk, emitted := true })
    else (true, { walk, count := some n, emitted := true })

@[simp] theorem emitted_advance (token : Token) (c : CountWalk) :
    (c.advance token).2.emitted = true := by
  unfold advance
  split
  · assumption
  · simp only
    split <;> rfl

def result (c : CountWalk) : Option Json :=
  c.count.map fun n => (c.walk.encode (.int (Int64.ofNat n))).toJson

end CountWalk

end QuadGraph
