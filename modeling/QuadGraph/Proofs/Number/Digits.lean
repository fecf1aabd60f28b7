import Mathlib.Data.List.TakeDrop
import Mathlib.Data.List.TakeWhile
import Mathlib.Tactic.Ring
import QuadGraph.Number.Numeral

/-! Rows of digits: the number that they stand for, what zeros at the end do to it, and how
numerals made of digits and a point are read. -/
namespace QuadGraph

namespace Numeral

theorem value_append (xs ys : List Char) :
    value (xs ++ ys) = value xs * 10 ^ ys.length + value ys := by
  rw [value, Nat.ofDigitChars_append, Nat.ofDigitChars_eq_ofDigitChars_zero, Nat.mul_comm]
  rfl

theorem value_zeros (k : Nat) : value (List.replicate k '0') = 0 := by
  induction k with
  | zero => rfl
  | succ k ih =>
    rw [List.replicate_succ', value_append, ih]
    rfl

theorem value_toDigits (n : Nat) : value (Nat.toDigits 10 n) = n :=
  Nat.ofDigitChars_ten_toDigits

theorem isDigit_toDigits (n : Nat) (c : Char) (h : c ∈ Nat.toDigits 10 n) : c.isDigit :=
  Nat.isDigit_of_mem_toDigits (by decide) (by decide) h

theorem isDigit_zeros (k : Nat) (c : Char) (h : c ∈ List.replicate k '0') : c.isDigit := by
  rw [List.eq_of_mem_replicate h]
  rfl

theorem toDigits_mul_pow (n k : Nat) (hn : n ≠ 0) :
    Nat.toDigits 10 (n * 10 ^ k) = Nat.toDigits 10 n ++ List.replicate k '0' := by
  induction k with
  | zero => rw [pow_zero, Nat.mul_one, List.replicate_zero, List.append_nil]
  | succ k ih =>
    have hpos : 0 < n * 10 ^ k := Nat.mul_pos (Nat.pos_of_ne_zero hn) (Nat.pow_pos (by decide))
    -- The last of the zeros is the last digit of a multiple of ten.
    have hlast := Nat.toDigits_append_toDigits (by decide : 1 < 10) hpos (by decide : 0 < 10)
    calc Nat.toDigits 10 (n * 10 ^ (k + 1))
        = Nat.toDigits 10 (10 * (n * 10 ^ k) + 0) := by
          rw [pow_succ, Nat.add_zero, Nat.mul_comm 10, Nat.mul_assoc]
      _ = Nat.toDigits 10 (n * 10 ^ k) ++ Nat.toDigits 10 0 := hlast.symm
      _ = Nat.toDigits 10 n ++ List.replicate (k + 1) '0' := by
          rw [ih, List.append_assoc, List.replicate_succ']
          rfl

/-- Digits in front of something that does not go on with a digit are taken off it. -/
theorem digits_append (xs rest : List Char) (hxs : ∀ c ∈ xs, c.isDigit)
    (hrest : ∀ c ∈ rest.head?, c.isDigit = false) : digits (xs ++ rest) = (xs, rest) := by
  rw [digits, List.span_eq_takeWhile_dropWhile, List.takeWhile_append_of_pos hxs,
    List.dropWhile_append_of_pos hxs]
  cases rest with
  | nil => rw [List.takeWhile_nil, List.append_nil, List.dropWhile_nil]
  | cons c rest =>
    have hc : ¬ c.isDigit = true := by simp [hrest c rfl]
    rw [List.takeWhile_cons_of_neg hc, List.append_nil, List.dropWhile_cons_of_neg hc]

theorem decimal?_whole (xs : List Char) (hxs : ∀ c ∈ xs, c.isDigit) (hne : xs ≠ []) :
    decimal? xs = some ⟨value xs, 0⟩ := by
  have hdigits : digits xs = (xs, []) := by
    simpa using digits_append xs [] hxs nofun
  simp [decimal?, hdigits, hne]

theorem decimal?_pointed (xs ys : List Char) (hxs : ∀ c ∈ xs, c.isDigit)
    (hys : ∀ c ∈ ys, c.isDigit) (hne : xs ≠ []) :
    decimal? (xs ++ '.' :: ys) = some ⟨value (xs ++ ys), -ys.length⟩ := by
  have hwhole : digits (xs ++ '.' :: ys) = (xs, '.' :: ys) :=
    digits_append xs _ hxs (by rintro _ ⟨⟩; rfl)
  have hfraction : digits ys = (ys, []) := by
    simpa using digits_append ys [] hys nofun
  simp [decimal?, hwhole, hfraction, hne]

/-- A sign is told from a digit. -/
theorem sign_of_isDigit (c : Char) (rest : List Char) (h : c.isDigit) :
    sign (c :: rest) = (false, c :: rest) := by
  unfold sign
  split
  · next heq =>
    cases heq
    cases h
  · next heq =>
    cases heq
    cases h
  · rfl

end Numeral

namespace Decimal

open Numeral

theorem width_mul_pow (n k : Nat) (hn : n ≠ 0) : width (n * 10 ^ k) = width n + k := by
  rw [width, toDigits_mul_pow n k hn, List.length_append, List.length_replicate, width]

theorem lt_width (n k : Nat) (hk : 0 < k) (h : 10 ^ k ≤ n) : k < width n := by
  rw [width, ← Nat.not_le, Nat.length_toDigits_le_iff (by decide) hk]
  exact Nat.not_lt.mpr h

/-- Taking off the zeros at the end divides a number by a power of ten. -/
theorem significant_spec (d : Decimal) (h : d.digits ≠ 0) :
    ∃ zeros : Nat, d.significant.2 = d.exponent + zeros ∧
      d.digits = value d.significant.1 * 10 ^ zeros ∧
      (∀ c ∈ d.significant.1, c.isDigit) ∧ d.significant.1 ≠ [] := by
  let row := Nat.toDigits 10 d.digits
  let zeros := (row.reverse.takeWhile (· = '0')).length
  -- The row ends with the zeros that are counted.
  obtain ⟨kept, hrow⟩ : ∃ kept, row = kept ++ List.replicate zeros '0' := by
    have hzeros : row.reverse.takeWhile (· = '0') = List.replicate zeros '0' := by
      apply List.eq_replicate_of_mem
      intro c hc
      simpa using List.mem_takeWhile_imp hc
    refine ⟨(row.reverse.dropWhile (· = '0')).reverse, ?_⟩
    rw [← List.reverse_replicate, ← hzeros, ← List.reverse_append,
      List.takeWhile_append_dropWhile, List.reverse_reverse]
  have htake : d.significant.1 = kept := by
    change row.take (row.length - zeros) = kept
    rw [hrow, List.length_append, List.length_replicate, Nat.add_sub_cancel]
    exact List.take_left
  have hvalue : d.digits = value d.significant.1 * 10 ^ zeros := by
    calc d.digits = value row := (value_toDigits d.digits).symm
      _ = value (d.significant.1 ++ List.replicate zeros '0') := by rw [htake, ← hrow]
      _ = value d.significant.1 * 10 ^ zeros := by
          rw [value_append, value_zeros, List.length_replicate, Nat.add_zero]
  refine ⟨zeros, rfl, hvalue, ?_, ?_⟩
  · intro c hc
    exact isDigit_toDigits d.digits c (List.mem_of_mem_take hc)
  · intro hnil
    rw [hnil] at hvalue
    apply h
    rw [hvalue]
    exact Nat.zero_mul _

end Decimal

end QuadGraph
