import Mathlib.Tactic.Ring
import QuadGraph.Number.Decimal

/-! How a ratio is rounded to a magnitude. Only the ratio counts, not the numbers that it is given
by, and a ratio that is a magnitude already stays what it is. -/
namespace QuadGraph.Magnitude

theorem eq_of_rank (m n : Magnitude) (h : m.rank = n.rank) : m = n := by
  obtain ⟨a, ha⟩ := m
  obtain ⟨b, hb⟩ := n
  obtain rfl : a = b := h
  rfl

theorem rank_lt_of_ne_infinity (m : Magnitude) (h : m ≠ infinity) : m.rank < 2047 * binade := by
  have hne : m.rank ≠ 2047 * binade := fun heq => h (eq_of_rank m infinity heq)
  have hle := m.rank_le
  omega

/-- The units of a magnitude are a significand and a power of two. In the first binade the power is
one; past it the significand has all its 53 bits. -/
theorem exists_units_eq (m : Magnitude) :
    ∃ significand shift, (shift = 0 ∨ binade ≤ significand) ∧ significand < 2 * binade ∧
      m.units = significand * 2 ^ shift ∧ m.rank = shift * binade + significand := by
  have hbinade : 0 < binade := Nat.two_pow_pos 52
  -- In the first binade the rank is the significand; past it, it counts the binades as well.
  by_cases hm : m.rank < binade
  · refine ⟨m.rank, 0, Or.inl rfl, by omega, ?_, by omega⟩
    rw [units, if_pos hm, pow_zero, Nat.mul_one]
  · have hquot : 1 ≤ m.rank / binade := (Nat.le_div_iff_mul_le hbinade).mpr (by omega)
    have hmod : m.rank % binade < binade := Nat.mod_lt _ hbinade
    have hrank : binade * (m.rank / binade) + m.rank % binade = m.rank := Nat.div_add_mod _ _
    refine ⟨binade + m.rank % binade, m.rank / binade - 1, Or.inr (by omega), by omega,
      if_neg hm, ?_⟩
    calc m.rank = binade * (m.rank / binade - 1 + 1) + m.rank % binade := by
          rw [Nat.sub_add_cancel hquot, hrank]
      _ = (m.rank / binade - 1) * binade + (binade + m.rank % binade) := by ring

theorem ofUnits_mul (num den k : Nat) (hk : 0 < k) :
    ofUnits (num * k) (den * k) = ofUnits num den := by
  have hquot : num * k / (den * k) = num / den := Nat.mul_div_mul_right num den hk
  have hstep (p : Nat) : den * k * p = den * p * k := by ring
  have hlt (a b : Nat) : a * k < b * k ↔ a < b := Nat.mul_lt_mul_right hk
  have heq (a b : Nat) : a * k = b * k ↔ a = b := Nat.mul_left_inj (Nat.pos_iff_ne_zero.mp hk)
  -- Quotients of multiples stay the same, and their remainders grow like the step.
  simp only [ofUnits, hquot, hstep, Nat.mul_div_mul_right _ _ hk, Nat.mul_mod_mul_right, hlt, heq,
    ← Nat.mul_assoc]

theorem log2_significand (significand shift : Nat) (hlow : shift = 0 ∨ binade ≤ significand)
    (hhigh : significand < 2 * binade) : Nat.log2 (significand * 2 ^ shift) - 52 = shift := by
  have hbinade : binade = 2 ^ 52 := rfl
  by_cases hzero : significand = 0
  · have hshift : shift = 0 := by
      apply hlow.resolve_right
      rw [hzero, hbinade]
      exact Nat.not_le_of_lt (Nat.two_pow_pos 52)
    rw [hzero, hshift]
    rfl
  -- All 53 bits are there if there is a shift, so nothing else makes the product longer.
  · have hne : significand * 2 ^ shift ≠ 0 := Nat.mul_ne_zero hzero (Nat.two_pow_pos shift).ne'
    have hbelow : Nat.log2 (significand * 2 ^ shift) < 53 + shift := by
      rw [Nat.log2_lt hne, pow_add]
      apply Nat.mul_lt_mul_of_pos_right _ (Nat.two_pow_pos shift)
      omega
    rcases hlow with rfl | hlow
    · omega
    · have habove : 52 + shift ≤ Nat.log2 (significand * 2 ^ shift) := by
        rw [Nat.le_log2 hne, pow_add]
        exact Nat.mul_le_mul_right _ hlow
      omega

/-- Magnitudes are not rounded. -/
theorem ofUnits_units (m : Magnitude) (h : m ≠ infinity) : ofUnits m.units 1 = m := by
  obtain ⟨significand, shift, hlow, hhigh, hunits, hrank⟩ := m.exists_units_eq
  have hfinite := m.rank_lt_of_ne_infinity h
  have hshift : Nat.log2 m.units - 52 = shift := hunits ▸ log2_significand _ _ hlow hhigh
  have hfloor : m.units / 2 ^ shift = significand := by
    rw [hunits, Nat.mul_div_cancel _ (Nat.two_pow_pos shift)]
  have hrest : m.units % 2 ^ shift = 0 := by rw [hunits, Nat.mul_mod_left]
  -- Nothing is left over, so nothing is rounded up.
  have hstep : 0 < 2 ^ shift := Nat.two_pow_pos shift
  apply eq_of_rank
  simp only [ofUnits, Nat.div_one, hshift, Nat.pow_eq, Nat.one_mul, hfloor, hrest]
  rw [if_neg (by omega), ← hrank]
  exact Nat.min_eq_left m.rank_le

/-- Two fractions with one ratio are rounded alike. -/
theorem ofRatio_congr (a b c d : Nat) (hb : 0 < b) (hd : 0 < d) (h : a * d = c * b) :
    ofRatio a b = ofRatio c d :=
  calc ofRatio a b = ofUnits (a * unitsPerOne * d) (b * d) := (ofUnits_mul _ _ d hd).symm
    _ = ofUnits (c * unitsPerOne * b) (d * b) := by
      rw [Nat.mul_right_comm a, h, Nat.mul_right_comm c, Nat.mul_comm b d]
    _ = ofRatio c d := ofUnits_mul _ _ b hb

theorem unitsPerOne_pos : 0 < unitsPerOne := by
  decide +kernel

/-- A number of units is the magnitude that it is the number of. -/
theorem ofRatio_units (m : Magnitude) (h : m ≠ infinity) : ofRatio m.units unitsPerOne = m :=
  calc ofRatio m.units unitsPerOne = ofUnits (m.units * unitsPerOne) (1 * unitsPerOne) := by
        rw [ofRatio, Nat.one_mul]
    _ = ofUnits m.units 1 := ofUnits_mul _ _ _ unitsPerOne_pos
    _ = m := ofUnits_units m h

theorem units_pos (m : Magnitude) (h : m ≠ zero) : 0 < m.units := by
  obtain ⟨significand, shift, hlow, -, hunits, hrank⟩ := m.exists_units_eq
  have hbinade : 0 < binade := Nat.two_pow_pos 52
  have hne : m.rank ≠ 0 := fun heq => h (eq_of_rank m zero heq)
  have hpos : 0 < significand := by
    rcases hlow with rfl | hlow
    · omega
    · omega
  rw [hunits]
  exact Nat.mul_pos hpos (Nat.two_pow_pos shift)

end QuadGraph.Magnitude
