import QuadGraph.Proofs.Number.Rounding

/-! Rounding and the order of numbers. A larger ratio is never rounded to a smaller magnitude, so
integers become doubles in their own order. Different ones may become the same double, but not
while 53 bits hold them both. -/
namespace QuadGraph

namespace Magnitude

/-- The whole number nearest to a quotient, ties to the even one. -/
def nearest (num den : Nat) : Nat :=
  if den < 2 * (num % den) ∨ (den = 2 * (num % den) ∧ num / den % 2 = 1) then num / den + 1
  else num / den

/-- The binade that a quotient is rounded in: how many bits it has beyond 53. -/
def excess (num den : Nat) : Nat :=
  Nat.log2 (num / den) - 52

theorem rank_ofUnits (num den : Nat) :
    (ofUnits num den).rank =
      min (excess num den * binade + nearest num (den * 2 ^ excess num den)) (2047 * binade) :=
  rfl

theorem nearest_bounds (num den : Nat) :
    num / den ≤ nearest num den ∧ nearest num den ≤ num / den + 1 := by
  unfold nearest
  split <;> omega

theorem nearest_mono (m n den : Nat) (h : m ≤ n) : nearest m den ≤ nearest n den := by
  have hquot : m / den ≤ n / den := Nat.div_le_div_right h
  rcases Nat.lt_or_eq_of_le hquot with hlt | heq
  · -- Rounding up leads to the next whole number, and the larger quotient is there already.
    have hm := (nearest_bounds m den).2
    have hn := (nearest_bounds n den).1
    omega
  · have hm := Nat.div_add_mod m den
    have hn := Nat.div_add_mod n den
    rw [heq] at hm
    have hrest : m % den ≤ n % den := by omega
    unfold nearest
    rw [heq]
    split_ifs <;> omega

theorem excess_mono (m n den : Nat) (h : m ≤ n) : excess m den ≤ excess n den := by
  have hquot : m / den ≤ n / den := Nat.div_le_div_right h
  have hlog : Nat.log2 (m / den) ≤ Nat.log2 (n / den) := by
    by_cases hzero : m / den = 0
    · rw [hzero, Nat.log2_zero]
      exact Nat.zero_le _
    · have hpos : 0 < n / den := lt_of_lt_of_le (Nat.pos_of_ne_zero hzero) hquot
      rw [Nat.le_log2 hpos.ne']
      exact le_trans (Nat.log2_self_le hzero) hquot
  unfold excess
  omega

/-- In its binade a quotient has no more than 53 bits. -/
theorem div_lt_of_excess (num den : Nat) : num / (den * 2 ^ excess num den) < 2 * binade := by
  have hbits : num / den < 2 ^ (53 + excess num den) := by
    have hlog : num / den < 2 ^ (Nat.log2 (num / den) + 1) := Nat.lt_log2_self
    have hle : Nat.log2 (num / den) + 1 ≤ 53 + excess num den := by
      unfold excess
      omega
    exact lt_of_lt_of_le hlog (Nat.pow_le_pow_right (by omega) hle)
  rw [← Nat.div_div_eq_div_mul]
  apply Nat.div_lt_of_lt_mul
  calc num / den < 2 ^ (53 + excess num den) := hbits
    _ = 2 ^ excess num den * (2 * binade) := by
      rw [show 2 * binade = 2 ^ 53 from rfl, ← Nat.pow_add, Nat.add_comm]

/-- Past the first binade it has them all. -/
theorem le_div_of_excess (num den : Nat) (h : 0 < excess num den) :
    binade ≤ num / (den * 2 ^ excess num den) := by
  have hne : num / den ≠ 0 := by
    intro hzero
    unfold excess at h
    rw [hzero, Nat.log2_zero] at h
    omega
  have hlog : Nat.log2 (num / den) = 52 + excess num den := by
    unfold excess at h ⊢
    omega
  have hbits : 2 ^ (52 + excess num den) ≤ num / den := hlog ▸ Nat.log2_self_le hne
  rw [← Nat.div_div_eq_div_mul, Nat.le_div_iff_mul_le (Nat.two_pow_pos _)]
  calc binade * 2 ^ excess num den = 2 ^ (52 + excess num den) := by
        rw [show binade = 2 ^ 52 from rfl, ← Nat.pow_add]
    _ ≤ num / den := hbits

/-- More units are never rounded to less. -/
theorem rank_ofUnits_mono (m n den : Nat) (h : m ≤ n) :
    (ofUnits m den).rank ≤ (ofUnits n den).rank := by
  rw [rank_ofUnits, rank_ofUnits]
  apply min_le_min_right
  rcases Nat.lt_or_eq_of_le (excess_mono m n den h) with hlt | heq
  · -- The smaller one is at most rounded up to the next binade, where the larger one is at least.
    have hm := (nearest_bounds m (den * 2 ^ excess m den)).2
    have hn := (nearest_bounds n (den * 2 ^ excess n den)).1
    have hbelow := div_lt_of_excess m den
    have habove := le_div_of_excess n den (by omega)
    have hbinades : (excess m den + 1) * binade ≤ excess n den * binade :=
      Nat.mul_le_mul_right binade hlt
    rw [Nat.succ_mul] at hbinades
    omega
  · rw [heq]
    exact Nat.add_le_add_left (nearest_mono m n _ h) _

theorem rank_ofRatio_mono (m n den : Nat) (h : m ≤ n) :
    (ofRatio m den).rank ≤ (ofRatio n den).rank :=
  rank_ofUnits_mono _ _ den (Nat.mul_le_mul_right unitsPerOne h)

/-- A number of units that 53 bits can hold, however many zeros follow them, is not rounded. -/
theorem rank_ofUnits_exact (significand shift : Nat) (hlow : shift = 0 ∨ binade ≤ significand)
    (hhigh : significand < 2 * binade) (hfinite : shift * binade + significand ≤ 2047 * binade) :
    (ofUnits (significand * 2 ^ shift) 1).rank = shift * binade + significand := by
  have hexcess : excess (significand * 2 ^ shift) 1 = shift := by
    rw [excess, Nat.div_one]
    exact log2_significand significand shift hlow hhigh
  have hpos : 0 < 2 ^ shift := Nat.two_pow_pos shift
  have hnearest : nearest (significand * 2 ^ shift) (1 * 2 ^ shift) = significand := by
    rw [nearest, Nat.one_mul, Nat.mul_mod_left, Nat.mul_div_cancel _ hpos]
    exact if_neg (by omega)
  rw [rank_ofUnits, hexcess, hnearest]
  exact Nat.min_eq_left hfinite

/-- A rank tells the bits and the zeros that follow them. -/
theorem significand_unique (significand significand' shift shift' : Nat)
    (hlow : shift = 0 ∨ binade ≤ significand) (hhigh : significand < 2 * binade)
    (hlow' : shift' = 0 ∨ binade ≤ significand') (hhigh' : significand' < 2 * binade)
    (h : shift * binade + significand = shift' * binade + significand') :
    significand = significand' ∧ shift = shift' := by
  rcases Nat.lt_trichotomy shift shift' with hlt | rfl | hlt
  -- A whole binade lies between ranks with a different number of zeros.
  · have hbinades : (shift + 1) * binade ≤ shift' * binade := Nat.mul_le_mul_right binade hlt
    rw [Nat.succ_mul] at hbinades
    omega
  · exact ⟨by omega, rfl⟩
  · have hbinades : (shift' + 1) * binade ≤ shift * binade := Nat.mul_le_mul_right binade hlt
    rw [Nat.succ_mul] at hbinades
    omega

/-- Whole numbers up to 2 ^ 53 are a significand and zeros when they are counted in units. -/
theorem exists_significand (n : Nat) (h : n ≤ 2 ^ 53) :
    ∃ significand shift, (shift = 0 ∨ binade ≤ significand) ∧ significand < 2 * binade ∧
      shift ≤ 1075 ∧ n * unitsPerOne = significand * 2 ^ shift := by
  have hbinade : binade = 2 ^ 52 := rfl
  -- The exponent is kept as a name, so that nothing evaluates the power.
  obtain ⟨zeros, hzeros, hunits⟩ : ∃ zeros, zeros = 1074 ∧ unitsPerOne = Nat.pow 2 zeros := by
    refine ⟨1074, rfl, ?_⟩
    unfold unitsPerOne
    rfl
  rw [Nat.pow_eq] at hunits
  rcases Nat.lt_or_eq_of_le h with hlt | rfl
  · by_cases hzero : n = 0
    · exact ⟨0, 0, Or.inl rfl, by omega, by omega, by rw [hzero, Nat.zero_mul, Nat.zero_mul]⟩
    · have hlog : Nat.log2 n ≤ 52 := by
        have := (Nat.log2_lt hzero).mpr hlt
        omega
      have hbelow : 2 ^ Nat.log2 n ≤ n := Nat.log2_self_le hzero
      have habove : n < 2 ^ (Nat.log2 n + 1) := Nat.lt_log2_self
      -- The zeros in front are filled up from the units.
      refine ⟨n * 2 ^ (52 - Nat.log2 n), zeros - (52 - Nat.log2 n), Or.inr ?_, ?_, by omega, ?_⟩
      · calc binade = 2 ^ Nat.log2 n * 2 ^ (52 - Nat.log2 n) := by
              rw [hbinade, ← Nat.pow_add, Nat.add_sub_cancel' hlog]
          _ ≤ n * 2 ^ (52 - Nat.log2 n) := Nat.mul_le_mul_right _ hbelow
      · calc n * 2 ^ (52 - Nat.log2 n) < 2 ^ (Nat.log2 n + 1) * 2 ^ (52 - Nat.log2 n) :=
              Nat.mul_lt_mul_of_pos_right habove (Nat.two_pow_pos _)
          _ = 2 * binade := by
              have hbits : Nat.log2 n + 1 + (52 - Nat.log2 n) = 52 + 1 := by omega
              rw [hbinade, ← Nat.pow_add, hbits, Nat.pow_succ']
      · rw [hunits, Nat.mul_assoc, ← Nat.pow_add, Nat.add_sub_cancel' (by omega)]
  · refine ⟨binade, zeros + 1, Or.inr (Nat.le_refl _), by omega, by omega, ?_⟩
    have hbits : 53 + zeros = 52 + (zeros + 1) := by omega
    rw [hunits, hbinade, ← Nat.pow_add, ← Nat.pow_add, hbits]

/-- Whole numbers that 53 bits hold are told apart after rounding. -/
theorem ofRatio_inj (m n : Nat) (hm : m ≤ 2 ^ 53) (hn : n ≤ 2 ^ 53)
    (h : ofRatio m 1 = ofRatio n 1) : m = n := by
  obtain ⟨s, k, hlow, hhigh, hk, hunits⟩ := exists_significand m hm
  obtain ⟨s', k', hlow', hhigh', hk', hunits'⟩ := exists_significand n hn
  have hfinite (s k : Nat) (hs : s < 2 * binade) (hk : k ≤ 1075) :
      k * binade + s ≤ 2047 * binade := by
    have := Nat.mul_le_mul_right binade hk
    omega
  -- Neither number is rounded, so both can be read off the rank they share.
  have hrank : k * binade + s = k' * binade + s' := by
    rw [← rank_ofUnits_exact s k hlow hhigh (hfinite s k hhigh hk), ← hunits,
      ← rank_ofUnits_exact s' k' hlow' hhigh' (hfinite s' k' hhigh' hk'), ← hunits']
    exact congrArg rank h
  obtain ⟨rfl, rfl⟩ := significand_unique s s' k k' hlow hhigh hlow' hhigh' hrank
  exact Nat.eq_of_mul_eq_mul_right unitsPerOne_pos (hunits.trans hunits'.symm)

theorem rank_ofRatio_pos (n : Nat) (h : 0 < n) : 0 < (ofRatio n 1).rank := by
  have hone : 0 < (ofRatio 1 1).rank := by decide +kernel
  exact lt_of_lt_of_le hone (rank_ofRatio_mono 1 n 1 h)

end Magnitude

namespace Double

/-- What an integer is for the numeric order, once it is rounded. -/
def integerKey (i : Int) : Int :=
  if i < 0 then -(Magnitude.ofRatio i.natAbs 1).rank else (Magnitude.ofRatio i.natAbs 1).rank

theorem numericKey?_ofInt (i : Int) : (ofInt i).numericKey? = some (integerKey i) := by
  rw [ofInt, integerKey]
  by_cases hi : i < 0
  · rw [decide_eq_true hi, if_pos hi, numericKey?]
  · rw [decide_eq_false hi, if_neg hi, numericKey?]

/-- Integers are rounded in their order. -/
theorem integerKey_mono (i j : Int) (h : i ≤ j) : integerKey i ≤ integerKey j := by
  have hmono (m n : Nat) (hmn : m ≤ n) := Magnitude.rank_ofRatio_mono m n 1 hmn
  unfold integerKey
  split_ifs with hi hj
  · have := hmono j.natAbs i.natAbs (by omega)
    omega
  · omega
  · omega
  · have := hmono i.natAbs j.natAbs (by omega)
    omega

theorem ofInt_inj (i j : Int) (hi : i.natAbs ≤ 2 ^ 53) (hj : j.natAbs ≤ 2 ^ 53)
    (h : ofInt i = ofInt j) : i = j := by
  rw [ofInt, ofInt, number.injEq, decide_eq_decide] at h
  have habs : i.natAbs = j.natAbs := Magnitude.ofRatio_inj _ _ hi hj h.2
  have hsign : i < 0 ↔ j < 0 := h.1
  omega

/-- Integers that are rounded to numerically equal doubles are rounded to the same one. -/
theorem ofInt_eq_of_integerKey_eq (i j : Int) (h : integerKey i = integerKey j) :
    ofInt i = ofInt j := by
  have hpos (k : Int) (hk : k < 0) := Magnitude.rank_ofRatio_pos k.natAbs (by omega)
  have hsign : i < 0 ↔ j < 0 := by
    unfold integerKey at h
    -- Only a negative number lies below zero, however it is rounded.
    constructor
    · intro hi
      have := hpos i hi
      by_contra hj
      rw [if_pos hi, if_neg hj] at h
      omega
    · intro hj
      have := hpos j hj
      by_contra hi
      rw [if_neg hi, if_pos hj] at h
      omega
  have hrank : (Magnitude.ofRatio i.natAbs 1).rank = (Magnitude.ofRatio j.natAbs 1).rank := by
    unfold integerKey at h
    split_ifs at h <;> omega
  rw [ofInt, ofInt, Magnitude.eq_of_rank _ _ hrank, decide_eq_decide.mpr hsign]

end Double

end QuadGraph
