import QuadGraph.Proofs.Number.Digits
import QuadGraph.Proofs.Number.Rounding

/-! Numbers and truth values are read back from the texts that they are written as. For a binary64
number this rests on how its digits are chosen: whichever are taken, they read back as it. -/
namespace QuadGraph

namespace Decimal

open Numeral

/-- A decimal of usual size is rounded like its fraction, however the exponent is divided between
the two parts of it. -/
theorem magnitude_eq_ofRatio (d : Decimal) (p q : Nat) (he : d.exponent = p - q)
    (hdigits : d.digits ≠ 0) (hhigh : d.exponent ≤ 310)
    (hlow : -330 ≤ d.exponent + width d.digits) :
    d.magnitude = .ofRatio (d.digits * 10 ^ p) (10 ^ q) := by
  obtain ⟨digits, exponent⟩ := d
  have hten (k : Nat) : 0 < 10 ^ k := Nat.pow_pos (by decide)
  rw [magnitude, if_neg hdigits, if_neg (Int.not_lt.mpr hhigh), if_neg (Int.not_lt.mpr hlow)]
  simp only at he ⊢
  -- The power of ten that both parts have in common cancels.
  cases exponent with
  | ofNat e =>
    have hp : p = e + q := by
      rw [Int.ofNat_eq_natCast] at he
      omega
    apply Magnitude.ofRatio_congr _ _ _ _ Nat.one_pos (hten q)
    rw [hp, pow_add, Nat.pow_eq, Nat.mul_one, Nat.mul_assoc]
  | negSucc e =>
    have hq : q = p + (e + 1) := by omega
    apply Magnitude.ofRatio_congr _ _ _ _ (hten (e + 1)) (hten q)
    rw [hq, pow_add, Nat.mul_assoc]

theorem bounds_of_magnitude (d : Decimal) (hzero : d.magnitude ≠ .zero)
    (hinfinity : d.magnitude ≠ .infinity) :
    d.digits ≠ 0 ∧ d.exponent ≤ 310 ∧ -330 ≤ d.exponent + width d.digits := by
  have hdigits : d.digits ≠ 0 := fun h => hzero (if_pos h)
  have hhigh : ¬ 310 < d.exponent := by
    intro h
    apply hinfinity
    rw [magnitude, if_neg hdigits, if_pos h]
  have hlow : ¬ d.exponent + width d.digits < -330 := by
    intro h
    apply hzero
    rw [magnitude, if_neg hdigits, if_neg hhigh, if_pos h]
  exact ⟨hdigits, Int.not_lt.mp hhigh, Int.not_lt.mp hlow⟩

/-- All the digits of a magnitude, down to those of one unit, read back as it. The number of places
is kept apart from its value, which is too large for powers of it to be computed. -/
theorem magnitude_exact (m : Magnitude) (hzero : m ≠ .zero) (hinfinity : m ≠ .infinity)
    (places : Nat) (hplaces : places = 1074) :
    (Decimal.mk (m.units * Nat.pow 5 places) (-1074)).magnitude = m := by
  have hunits := m.units_pos hzero
  -- So many digits keep the decimal far above the smallest magnitude, low as the exponent is.
  have hfive : 10 ^ 743 ≤ Nat.pow 5 places := by
    rw [hplaces]
    decide +kernel
  have hlarge : 10 ^ 743 ≤ m.units * Nat.pow 5 places :=
    Nat.le_trans hfive (Nat.le_mul_of_pos_left _ hunits)
  have hwidth := lt_width _ 743 (by decide) hlarge
  have hone : Magnitude.unitsPerOne = Nat.pow 2 places := by
    rw [hplaces]
    decide +kernel
  -- A unit is a power of two below one, and the fives make powers of ten of it.
  have hten : m.units * Nat.pow 5 places * 10 ^ 0 * Magnitude.unitsPerOne =
      m.units * 10 ^ places := by
    rw [hone, pow_zero, Nat.mul_one, Nat.mul_assoc, Nat.pow_eq, Nat.pow_eq, ← Nat.mul_pow]
  calc (Decimal.mk (m.units * Nat.pow 5 places) (-1074)).magnitude
      = .ofRatio (m.units * Nat.pow 5 places * 10 ^ 0) (10 ^ places) := by
        apply magnitude_eq_ofRatio _ 0 places (by simp only; omega)
        · exact (Nat.lt_of_lt_of_le (Nat.pow_pos (by decide)) hlarge).ne'
        · simp only
          omega
        · simp only
          omega
    _ = .ofRatio m.units Magnitude.unitsPerOne :=
        Magnitude.ofRatio_congr _ _ _ _ (Nat.pow_pos (by decide)) Magnitude.unitsPerOne_pos hten
    _ = m := m.ofRatio_units hinfinity

/-- The digits that are taken for a magnitude read back as it. -/
theorem magnitude_shortest (tie : Tie) (m : Magnitude) (hzero : m ≠ .zero)
    (hinfinity : m ≠ .infinity) : (shortest tie m).magnitude = m := by
  unfold shortest
  simp only
  cases hfound : List.findSome? (onGrid? tie m) _ with
  | none =>
    generalize hplaces : (1074 : Nat) = places
    exact magnitude_exact m hzero hinfinity places hplaces.symm
  | some d =>
    -- Digits are taken only if they have been found to read back.
    obtain ⟨exponent, -, hgrid⟩ := List.exists_of_findSome?_eq_some hfound
    have hreads := List.find?_some hgrid
    exact of_decide_eq_true hreads

/-- A row of digits laid out with an exponent reads back as what it stands for. -/
theorem decimal?_positional (row : List Char) (exponent : Int) (hrow : ∀ c ∈ row, c.isDigit)
    (hne : row ≠ []) :
    decimal? (positional row exponent) = match exponent with
      | .ofNat e => some ⟨value row * 10 ^ e, 0⟩
      | .negSucc e => some ⟨value row, .negSucc e⟩ := by
  cases exponent with
  | ofNat e =>
    have hzeros : ∀ c ∈ row ++ List.replicate e '0', c.isDigit := by
      intro c hc
      rcases List.mem_append.mp hc with hc | hc
      · exact hrow c hc
      · exact isDigit_zeros e c hc
    rw [positional, decimal?_whole _ hzeros (by simp [hne]), value_append, value_zeros,
      List.length_replicate, Nat.add_zero]
  | negSucc e =>
    let places := e + 1
    rw [positional]
    simp only
    split
    · next hplaces =>
      -- The point stands among the digits.
      have hlast : (row.drop (row.length - places)).length = places := by
        rw [List.length_drop]
        omega
      rw [decimal?_pointed _ _ (fun c hc => hrow c (List.mem_of_mem_take hc))
        (fun c hc => hrow c (List.mem_of_mem_drop hc)), List.take_append_drop, hlast]
      · rfl
      · apply List.ne_nil_of_length_pos
        rw [List.length_take]
        omega
    · next hplaces =>
      -- The point stands before all digits, with zeros in between.
      let zeros := List.replicate (places - row.length) '0'
      have hfraction : ∀ c ∈ zeros ++ row, c.isDigit := by
        intro c hc
        rcases List.mem_append.mp hc with hc | hc
        · exact isDigit_zeros _ c hc
        · exact hrow c hc
      have hlength : (zeros ++ row).length = places := by
        rw [List.length_append, List.length_replicate]
        omega
      have hvalue : value (['0'] ++ (zeros ++ row)) = value row := by
        rw [← List.append_assoc, value_append, ← List.replicate_one,
          List.replicate_append_replicate, value_zeros, Nat.zero_mul, Nat.zero_add]
      have hread := decimal?_pointed ['0'] (zeros ++ row) (by simp) hfraction (by simp)
      rw [hvalue, hlength] at hread
      exact hread

/-- What is laid out of the significant digits of a decimal reads back as the same magnitude. -/
theorem magnitude_of_positional (d : Decimal) (hzero : d.magnitude ≠ .zero)
    (hinfinity : d.magnitude ≠ .infinity) :
    ∃ read : Decimal,
      decimal? (positional d.significant.1 d.significant.2) = some read ∧
        read.magnitude = d.magnitude := by
  obtain ⟨hdigits, hhigh, hlow⟩ := d.bounds_of_magnitude hzero hinfinity
  obtain ⟨zeros, hexponent, hvalue, hrow, hne⟩ := d.significant_spec hdigits
  let n := value d.significant.1
  have hn : n ≠ 0 := by
    intro h
    apply hdigits
    rw [hvalue, show value d.significant.1 = 0 from h, Nat.zero_mul]
  have hten (k : Nat) : 0 < 10 ^ k := Nat.pow_pos (by decide)
  have hread := decimal?_positional d.significant.1 d.significant.2 hrow hne
  have hwidth : width d.digits = width n + zeros := by rw [hvalue, width_mul_pow n zeros hn]
  -- Zeros that were taken off the digits are in the exponent now: both stand for one ratio.
  cases he : d.significant.2 with
  | ofNat e =>
    rw [he] at hread
    refine ⟨⟨n * 10 ^ e, 0⟩, hread, ?_⟩
    have hne : n * 10 ^ e ≠ 0 := Nat.mul_ne_zero hn (hten e).ne'
    rw [magnitude_eq_ofRatio ⟨n * 10 ^ e, 0⟩ 0 0 rfl hne (by simp) (by simp only; omega),
      magnitude_eq_ofRatio d e zeros (by rw [Int.ofNat_eq_natCast] at he; omega) hdigits hhigh hlow]
    apply Magnitude.ofRatio_congr _ _ _ _ (hten 0) (hten zeros)
    rw [hvalue]
    ring
  | negSucc e =>
    rw [he] at hread
    refine ⟨⟨n, .negSucc e⟩, hread, ?_⟩
    rw [magnitude_eq_ofRatio ⟨n, .negSucc e⟩ 0 (e + 1) (by simp only; omega) hn
        (by simp only; omega) (by simp only; omega),
      magnitude_eq_ofRatio d 0 (e + 1 + zeros) (by omega) hdigits hhigh hlow]
    apply Magnitude.ofRatio_congr _ _ _ _ (hten (e + 1)) (hten (e + 1 + zeros))
    rw [hvalue]
    ring

theorem head_positional (row : List Char) (exponent : Int) (hrow : ∀ c ∈ row, c.isDigit)
    (hne : row ≠ []) : ∃ c rest, positional row exponent = c :: rest ∧ c.isDigit := by
  obtain ⟨c, rest, rfl⟩ := List.exists_cons_of_ne_nil hne
  have hc : c.isDigit := hrow c List.mem_cons_self
  cases exponent with
  | ofNat e => exact ⟨c, _, rfl, hc⟩
  | negSucc e =>
    rw [positional]
    split
    · next hplaces =>
      obtain ⟨k, hk⟩ : ∃ k, (c :: rest).length - (e + 1) = k + 1 :=
        Nat.exists_eq_succ_of_ne_zero (by omega)
      rw [hk, List.take_succ_cons]
      exact ⟨c, _, rfl, hc⟩
    · exact ⟨'0', _, rfl, rfl⟩

end Decimal

open Numeral

theorem toLower_of_isDigit (c : Char) (h : c.isDigit) : c.toLower = c := by
  rw [Char.isDigit_iff_toNat] at h
  apply dif_neg
  rintro ⟨hupper, -⟩
  have : 'A'.toNat ≤ c.toNat := hupper
  have hA : 'A'.toNat = 65 := rfl
  have h9 : '9'.toNat = 57 := rfl
  omega

/-- A text that begins with a digit is not one of the names of infinity and not-a-number. -/
theorem Double.ofText?_of_isDigit (negative : Bool) (c : Char) (rest : List Char) (read : Decimal)
    (hc : c.isDigit) (hread : decimal? (c :: rest) = some read) :
    Double.ofText? (String.ofList (if negative then '-' :: c :: rest else c :: rest)) =
      some (.number negative read.magnitude) := by
  have hsign : sign (if negative then '-' :: c :: rest else c :: rest) = (negative, c :: rest) := by
    cases negative with
    | false => exact sign_of_isDigit c rest hc
    | true => rfl
  -- Names begin with a letter, which no digit becomes.
  have hname (word : String) (letter : Char) (others : List Char)
      (hword : word.toList = letter :: others) (hletter : letter.isDigit = false) :
      String.ofList ((c :: rest).map Char.toLower) ≠ word := by
    intro heq
    have hlist := congrArg String.toList heq
    rw [String.toList_ofList, List.map_cons, toLower_of_isDigit c hc, hword] at hlist
    rw [(List.cons.inj hlist).1, hletter] at hc
    cases hc
  have hnan := hname "nan" 'n' _ rfl rfl
  have hinf := hname "inf" 'i' _ rfl rfl
  have hinfinity := hname "infinity" 'i' _ rfl rfl
  simp only [Double.ofText?, String.toList_ofList, hsign, hread]
  rw [if_neg hnan, if_neg (not_or.mpr ⟨hinf, hinfinity⟩), Option.map_some]

/-- The number itself, or for all not-a-numbers the one that their text stands for. -/
def Double.normalize : Double → Double
  | .nan _ _ => .nan false .quiet
  | .number negative m => .number negative m

/-- The text of a binary64 number is read as this number, if it is one. -/
theorem Double.ofText?_text (d : Double) : Double.ofText? d.text = some d.normalize := by
  cases d with
  | nan negative p =>
    rw [Double.text, Double.normalize]
    decide +kernel
  | number negative m =>
    by_cases hinfinity : m = .infinity
    · subst hinfinity
      cases negative <;> decide +kernel
    · by_cases hzero : m = .zero
      · subst hzero
        cases negative <;> decide +kernel
      -- The sign stands before a text that begins with a digit and reads back as the magnitude.
      · let d := Decimal.shortest .up m
        have hd : d.magnitude = m := Decimal.magnitude_shortest .up m hzero hinfinity
        obtain ⟨read, hread, hmagnitude⟩ :=
          d.magnitude_of_positional (hd ▸ hzero) (hd ▸ hinfinity)
        obtain ⟨hdigits, -, -⟩ := d.bounds_of_magnitude (hd ▸ hzero) (hd ▸ hinfinity)
        obtain ⟨-, -, -, hrow, hne⟩ := d.significant_spec hdigits
        obtain ⟨c, rest, hbody, hc⟩ := Decimal.head_positional _ d.significant.2 hrow hne
        rw [hbody] at hread
        have htext : (Double.number negative m).text =
            String.ofList (if negative then '-' :: c :: rest else c :: rest) := by
          simp only [Double.text, if_neg hinfinity, if_neg hzero]
          rw [← hbody]
        rw [htext, Double.ofText?_of_isDigit negative c rest read hc hread, hmagnitude, hd,
          Double.normalize]

/-- Of all not-a-numbers, a text is read as one of two. -/
theorem Double.normalize_of_ofText? (text : String) (x : Double)
    (h : Double.ofText? text = some x) : x = .nan true .quiet ∨ x.normalize = x := by
  unfold Double.ofText? at h
  simp only at h
  split_ifs at h
  · obtain rfl := Option.some.inj h
    cases (sign text.toList).1 with
    | true => exact Or.inl rfl
    | false => exact Or.inr rfl
  · obtain rfl := Option.some.inj h
    exact Or.inr rfl
  · obtain ⟨d, -, rfl⟩ := Option.map_eq_some_iff.mp h
    exact Or.inr rfl

theorem sign_toDigits (n : Nat) : sign (Nat.toDigits 10 n) = (false, Nat.toDigits 10 n) := by
  obtain ⟨c, rest, hrow⟩ := List.exists_cons_of_ne_nil (Nat.toDigits_ne_nil (n := n) (b := 10))
  have hc : c.isDigit := isDigit_toDigits n c (hrow ▸ List.mem_cons_self)
  rw [hrow]
  exact sign_of_isDigit c rest hc

theorem integer?_repr (i : Int) : integer? i.repr.toList = some i := by
  have hrow (n : Nat) : ((Nat.toDigits 10 n).isEmpty || !(Nat.toDigits 10 n).all Char.isDigit) =
      false := by
    have hall : (Nat.toDigits 10 n).all Char.isDigit := List.all_eq_true.mpr (isDigit_toDigits n)
    simp [hall, Nat.toDigits_ne_nil]
  cases i with
  | ofNat n =>
    have hlist : (Int.ofNat n).repr.toList = Nat.toDigits 10 n := by
      rw [Int.repr, Nat.repr_eq_ofList_toDigits, String.toList_ofList]
    rw [hlist, integer?, sign_toDigits]
    simp [hrow, value_toDigits]
  | negSucc n =>
    have hlist : (Int.negSucc n).repr.toList = '-' :: Nat.toDigits 10 (n + 1) := by
      rw [Int.repr, Nat.repr_eq_ofList_toDigits, String.toList_append, String.toList_ofList,
        String.toList_ofList]
      rfl
    rw [hlist, integer?]
    simp only [sign, hrow, value_toDigits, Bool.false_eq_true, if_false, if_true]
    rfl

/-- The text of an integer is read as this integer. -/
theorem int64?_toString (i : Int64) : int64? (toString i.toInt) = some i := by
  have hlow := i.minValue_le_toInt
  have hhigh := i.toInt_le
  rw [int64?, Int.toString_eq_repr, integer?_repr, Option.bind_eq_bind, Option.bind_some,
    guard, if_pos ⟨hlow, hhigh⟩]
  exact congrArg some i.ofInt_toInt

end QuadGraph
