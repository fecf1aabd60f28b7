/-!
Binary64 numbers as data. A magnitude is its rank among the nonnegative numbers, so the order of
magnitudes is the order of ranks, and every finite magnitude is a natural number of units of
2 ^ -1074. All arithmetic is exact on natural numbers and rounds once. A number is its sign and its
rank, so two numbers are equal exactly if all their bits are.
-/
namespace QuadGraph

/-- The number of magnitudes from one power of two up to the next, 52 bits of fraction. -/
def Magnitude.binade : Nat :=
  Nat.pow 2 52

/-- A nonnegative binary64 number, infinity included, by its rank: zero is 0, the least positive
number is 1, and infinity comes last. -/
structure Magnitude where
  rank : Nat
  rank_le : rank ≤ 2047 * Magnitude.binade
deriving DecidableEq

namespace Magnitude

def zero : Magnitude := ⟨0, Nat.zero_le _⟩

def infinity : Magnitude := ⟨2047 * binade, Nat.le_refl _⟩

/-- The number of units in one. -/
def unitsPerOne : Nat :=
  Nat.pow 2 1074

/-- The number of units of 2 ^ -1074 that a finite magnitude stands for: the bits of the fraction
lie below those of the exponent, and past the first binade the leading one is left out. -/
def units (m : Magnitude) : Nat :=
  if m.rank < binade then m.rank
  else (binade + m.rank % binade) * Nat.pow 2 (m.rank / binade - 1)

/-- The magnitude nearest to num / den units. A tie goes to the even rank, and what lies past the
largest finite number goes to infinity. -/
def ofUnits (num den : Nat) : Magnitude :=
  let shift := Nat.log2 (num / den) - 52
  let step := den * Nat.pow 2 shift
  let floor := num / step
  let rest := num % step
  let rounded :=
    if step < 2 * rest ∨ (step = 2 * rest ∧ floor % 2 = 1) then floor + 1 else floor
  ⟨min (shift * binade + rounded) (2047 * binade), Nat.min_le_right _ _⟩

/-- The magnitude nearest to num / den. -/
def ofRatio (num den : Nat) : Magnitude :=
  ofUnits (num * unitsPerOne) den

/-- The rounded product of two finite magnitudes. -/
def mul (a b : Magnitude) : Magnitude :=
  ofUnits (a.units * b.units) unitsPerOne

/-- The rounded quotient of two finite magnitudes, the second not zero. -/
def div (a b : Magnitude) : Magnitude :=
  ofUnits (a.units * unitsPerOne) b.units

end Magnitude

/-- What a not-a-number holds beside its sign: a fraction of 52 bits, not all of them zero. -/
structure Payload where
  fraction : Nat
  fraction_pos : 0 < fraction
  fraction_lt : fraction < Magnitude.binade
deriving DecidableEq

/-- The payload of the not-a-number that a text stands for. -/
def Payload.quiet : Payload := ⟨Nat.pow 2 51, by decide, by decide⟩

/-- A binary64 number, bit for bit: the two zeros differ, and so do not-a-numbers by their sign and
their payload. -/
inductive Double
  | nan (negative : Bool) (payload : Payload)
  | number (negative : Bool) (magnitude : Magnitude)
deriving DecidableEq

namespace Double

/-- The number nearest to an integer, ties to even. -/
def ofInt (i : Int) : Double :=
  .number (decide (i < 0)) (Magnitude.ofRatio i.natAbs 1)

def isNegative : Double → Bool
  | .nan negative _ => negative
  | .number negative _ => negative

/-- All the bits but the sign, read as one natural number. Past infinity come the payloads. -/
def rank : Double → Nat
  | .nan _ p => Magnitude.infinity.rank + p.fraction
  | .number _ m => m.rank

/-- A key for the total order: the rank from zero upwards, and from -0 downwards. -/
def totalKey (x : Double) : Int :=
  if x.isNegative then -x.rank - 1 else x.rank

/-- The total order. It has -0 before 0, negative not-a-numbers before -infinity and the positive
ones after infinity. -/
def totalCompare (a b : Double) : Ordering :=
  compare a.totalKey b.totalKey

/-- A key for the numeric order, in which the two zeros are equal. Not-a-numbers have none. -/
def numericKey? : Double → Option Int
  | .nan _ _ => none
  | .number false m => some m.rank
  | .number true m => some (-m.rank)

/-- The numeric order, in which not-a-numbers are incomparable. -/
def compare? (a b : Double) : Option Ordering := do
  return compare (← a.numericKey?) (← b.numericKey?)

/-- The sign and the rank are all the bits. -/
theorem eq_of_rank (a b : Double) (hsign : a.isNegative = b.isNegative) (h : a.rank = b.rank) :
    a = b := by
  have hpast (m : Magnitude) (p : Payload) : m.rank < Magnitude.infinity.rank + p.fraction :=
    Nat.lt_of_le_of_lt m.rank_le (Nat.lt_add_of_pos_right p.fraction_pos)
  match a, b, hsign, h with
  | .nan _ ⟨f, _, _⟩, .nan _ ⟨f', _, _⟩, rfl, h =>
    obtain rfl : f = f' := Nat.add_left_cancel h
    rfl
  | .number _ ⟨r, _⟩, .number _ ⟨r', _⟩, rfl, h =>
    obtain rfl : r = r' := h
    rfl
  | .nan _ p, .number _ m, _, h => exact absurd h.symm (Nat.ne_of_lt (hpast m p))
  | .number _ m, .nan _ p, _, h => exact absurd h (Nat.ne_of_lt (hpast m p))

/-- The total order tells every two numbers apart. -/
theorem totalKey_injective {a b : Double} (h : a.totalKey = b.totalKey) : a = b := by
  unfold totalKey at h
  cases ha : a.isNegative <;> cases hb : b.isNegative <;>
    simp only [ha, hb, Bool.false_eq_true, if_false, if_true] at h
  · exact eq_of_rank a b (ha.trans hb.symm) (by omega)
  · omega
  · omega
  · exact eq_of_rank a b (ha.trans hb.symm) (by omega)

/-- A not-a-number comes before all others or after them, by its sign. -/
theorem totalCompare_nan (negative sign : Bool) (p : Payload) (m : Magnitude) :
    (nan negative p).totalCompare (.number sign m) = if negative then .lt else .gt := by
  have hrank : m.rank ≤ Magnitude.infinity.rank := m.rank_le
  have hpos := p.fraction_pos
  cases negative with
  | true =>
    apply Int.compare_eq_lt.mpr
    cases sign <;> simp [totalKey, isNegative, rank] <;> omega
  | false =>
    apply Int.compare_eq_gt.mpr
    cases sign <;> simp [totalKey, isNegative, rank] <;> omega

end Double

end QuadGraph
