import QuadGraph.Path.Filter
import QuadGraph.Proofs.Term.Canonical

/-! The native comparison of terms. Texts, truth values and numbers are each compared among
themselves, and a term that is at most a second one is at most what the second one is at most. There
is one way to miss this: two integers are compared exactly, and each of them with a double only
after rounding, so that the larger one may be at most a double that is at most the smaller one. -/
namespace QuadGraph.Term

/-- A term compares as less than or equal to another one. -/
def AtMost (a b : Term) : Prop :=
  (a.compareNative? b).any Ordering.isLE

instance (a b : Term) : Decidable (a.AtMost b) :=
  inferInstanceAs (Decidable (_ = true))

theorem accepts_lessOrEqual (bound t : Term) :
    (Filter.compare .lessOrEqual bound).accepts t ↔ t.AtMost bound :=
  Iff.rfl

/-- What a number is for the numeric order. -/
def nativeKey? (t : Term) : Option Int :=
  t.numeric?.bind Double.numericKey?

theorem nativeKey?_int (i : Int64) : (int i).nativeKey? = some (Double.integerKey i.toInt) :=
  Double.numericKey?_ofInt i.toInt

theorem text?_of_nativeKey? (t : Term) (m : Int) (h : t.nativeKey? = some m) : t.text? = none := by
  cases t with
  | int i => rfl
  | float x => rfl
  | _ => cases h

theorem any_compare?_iff (x y : Double) :
    (x.compare? y).any Ordering.isLE ↔
      ∃ m n, x.numericKey? = some m ∧ y.numericKey? = some n ∧ m ≤ n := by
  cases hx : x.numericKey? with
  | none => simp [Double.compare?, hx]
  | some m =>
    cases hy : y.numericKey? with
    | none => simp [Double.compare?, hx, hy]
    | some n => simp [Double.compare?, hx, hy, Int.isLE_compare]

theorem atMost_int_iff (i j : Int64) : (int i).AtMost (int j) ↔ i.toInt ≤ j.toInt := by
  simp [AtMost, compareNative?, Int.isLE_compare]

/-- Terms that compare are numbers, texts or truth values, in their own order. Rounding keeps the
order of integers, so for numbers it may be that of the doubles. -/
theorem atMost_cases (a b : Term) (h : a.AtMost b) :
    (∃ m n, a.nativeKey? = some m ∧ b.nativeKey? = some n ∧ m ≤ n) ∨
      (∃ s t, a.text? = some s ∧ b.text? = some t ∧ (compare s t).isLE) ∨
      ∃ p q, a = .bool p ∧ b = .bool q ∧ (compare p q).isLE := by
  unfold AtMost compareNative? at h
  split at h
  -- Two integers are compared exactly, but their keys are in the same order.
  next i j =>
    refine Or.inl ⟨_, _, nativeKey?_int i, nativeKey?_int j, Double.integerKey_mono _ _ ?_⟩
    exact (atMost_int_iff i j).mp h
  next i y => exact Or.inl ((any_compare?_iff _ y).mp h)
  next x j => exact Or.inl ((any_compare?_iff x _).mp h)
  next x y => exact Or.inl ((any_compare?_iff x y).mp h)
  next p q => exact Or.inr (Or.inr ⟨p, q, rfl, rfl, h⟩)
  next =>
    cases hs : a.text? with
    | none => simp [hs] at h
    | some s =>
      cases ht : b.text? with
      | none => simp [hs, ht] at h
      | some t => exact Or.inr (Or.inl ⟨s, t, rfl, rfl, by simpa [hs, ht] using h⟩)

/-- Numbers that are not both integers are compared as doubles. -/
theorem atMost_of_nativeKey? (a b : Term) (m n : Int) (ha : a.nativeKey? = some m)
    (hb : b.nativeKey? = some n) (h : m ≤ n) (hne : ∀ i j, a = .int i → b ≠ .int j) :
    a.AtMost b := by
  obtain ⟨x, hx, hm⟩ := Option.bind_eq_some_iff.mp ha
  obtain ⟨y, hy, hn⟩ := Option.bind_eq_some_iff.mp hb
  have hdoubles : (x.compare? y).any Ordering.isLE := (any_compare?_iff x y).mpr ⟨m, n, hm, hn, h⟩
  rcases numeric?_eq_some a x hx with ⟨i, rfl, rfl⟩ | rfl <;>
    rcases numeric?_eq_some b y hy with ⟨j, rfl, rfl⟩ | rfl
  · exact absurd rfl (hne i j rfl)
  · exact hdoubles
  · exact hdoubles
  · exact hdoubles

/-- A double between an integer and a smaller one. -/
def Straddles (b a c : Term) : Prop :=
  ∃ (i k : Int64) (x : Double), a = .int i ∧ b = .float x ∧ c = .int k ∧ k.toInt < i.toInt

/-- Where a double is between integers in the wrong order, they are rounded alike. -/
theorem roundsAlike_of_straddles (a b c : Term) (hab : a.AtMost b) (hbc : b.AtMost c)
    (h : b.Straddles a c) : a.RoundsAlike c := by
  obtain ⟨i, k, x, rfl, rfl, rfl, hlt⟩ := h
  obtain ⟨m, n, hm, hn, hmn⟩ := (any_compare?_iff _ x).mp hab
  obtain ⟨n', p, hn', hp, hnp⟩ := (any_compare?_iff x _).mp hbc
  rw [Double.numericKey?_ofInt, Option.some.injEq] at hm hp
  have hsame : n = n' := Option.some.inj (hn.symm.trans hn')
  have hmono := Double.integerKey_mono k.toInt i.toInt (by omega)
  exact ⟨i, k, rfl, rfl, Double.ofInt_eq_of_integerKey_eq _ _ (by omega)⟩

theorem numeric?_of_atMost_int (b : Term) (i : Int64) (h : (int i).AtMost b) :
    (∃ j, b = .int j) ∨ ∃ x, b = .float x := by
  rcases atMost_cases (.int i) b h with ⟨-, n, -, hn, -⟩ | ⟨s, -, hs, -, -⟩ | ⟨p, -, hp, -, -⟩
  · obtain ⟨x, hx, -⟩ := Option.bind_eq_some_iff.mp hn
    rcases numeric?_eq_some b x hx with ⟨j, rfl, -⟩ | rfl
    · exact Or.inl ⟨j, rfl⟩
    · exact Or.inr ⟨x, rfl⟩
  · cases hs
  · cases hp

/-- Integers with a term between them are in order unless this is a double. -/
theorem atMost_of_ints (i k : Int64) (b : Term) (hab : (int i).AtMost b) (hbc : b.AtMost (int k)) :
    (int i).AtMost (int k) ↔ ¬ b.Straddles (int i) (int k) := by
  rw [atMost_int_iff]
  constructor
  · rintro hle ⟨_, _, x, ⟨⟩, -, ⟨⟩, hlt⟩
    omega
  · intro hstraddles
    rcases numeric?_of_atMost_int b i hab with ⟨j, rfl⟩ | ⟨x, rfl⟩
    -- Three integers are compared exactly; a double in the middle leaves only what it straddles.
    · rw [atMost_int_iff] at hab hbc
      omega
    · by_contra hlt
      exact hstraddles ⟨i, k, x, rfl, rfl, rfl, by omega⟩

/-- Numbers with a term between them are in order, but for integers with a double between them. -/
theorem atMost_of_numbers (a b c : Term) (m p : Int) (hm : a.nativeKey? = some m)
    (hp : c.nativeKey? = some p) (hmp : m ≤ p) (hab : a.AtMost b) (hbc : b.AtMost c) :
    a.AtMost c ↔ ¬ b.Straddles a c := by
  -- The keys decide for the outer terms, unless both of these are integers.
  by_cases hints : ∃ i k, a = .int i ∧ c = .int k
  · obtain ⟨i, k, rfl, rfl⟩ := hints
    exact atMost_of_ints i k b hab hbc
  · constructor
    · rintro - ⟨i, k, -, hi, -, hk, -⟩
      exact hints ⟨i, k, hi, hk⟩
    · intro _
      exact atMost_of_nativeKey? a c m p hm hp hmp fun i k hi hk => hints ⟨i, k, hi, hk⟩

theorem atMost_of_texts (a c : Term) (s u : String) (hs : a.text? = some s) (hu : c.text? = some u)
    (h : (compare s u).isLE) : a.AtMost c := by
  cases a <;> cases hs <;> cases c <;> cases hu <;> exact h

theorem not_straddles_of_text (a b c : Term) (s : String) (hs : a.text? = some s) :
    ¬ b.Straddles a c := by
  rintro ⟨i, -, -, rfl, -⟩
  cases hs

theorem atMost_iff_not_straddles (a b c : Term) (hab : a.AtMost b) (hbc : b.AtMost c) :
    a.AtMost c ↔ ¬ b.Straddles a c := by
  rcases atMost_cases a b hab with ⟨m, n, hm, hn, hmn⟩ | ⟨s, t, hs, ht, hst⟩ | ⟨p, q, rfl, rfl, hpq⟩
  -- What the second term is tells how it compares with the third one.
  · rcases atMost_cases b c hbc with ⟨n', p, hn', hp, hnp⟩ | ⟨t, -, ht, -, -⟩ | ⟨q, -, rfl, -, -⟩
    · have hsame : n = n' := Option.some.inj (hn.symm.trans hn')
      exact atMost_of_numbers a b c m p hm hp (by omega) hab hbc
    · rw [text?_of_nativeKey? b n hn] at ht
      cases ht
    · cases hn
  · rcases atMost_cases b c hbc with ⟨n, -, hn, -, -⟩ | ⟨t', u, ht', hu, htu⟩ | ⟨q, -, rfl, -, -⟩
    · rw [text?_of_nativeKey? b n hn] at ht
      cases ht
    · have hsame : t = t' := Option.some.inj (ht.symm.trans ht')
      subst hsame
      have hsu : (compare s u).isLE := Std.TransCmp.isLE_trans hst htu
      exact iff_of_true (atMost_of_texts a c s u hs hu hsu) (not_straddles_of_text a b c s hs)
    · cases ht
  · rcases atMost_cases _ c hbc with ⟨n, -, hn, -, -⟩ | ⟨t, -, ht, -, -⟩ | ⟨q', r, ⟨⟩, rfl, hqr⟩
    · cases hn
    · cases ht
    · have hpr : (compare p r).isLE := Std.TransCmp.isLE_trans hpq hqr
      exact iff_of_true hpr nofun

/-- The native comparison can be chained, so that a bound keeps whatever a smaller one keeps, unless
a double is between integers in the wrong order. Such integers are rounded alike, and 53 bits are
not enough for both. -/
theorem atMost_chains (a b c : Term) (hab : a.AtMost b) (hbc : b.AtMost c) :
    (a.AtMost c ↔ ¬ b.Straddles a c) ∧
    ((Filter.compare .lessOrEqual c).accepts a ↔ ¬ b.Straddles a c) ∧
    (b.Straddles a c → a.RoundsAlike c ∧ a ≠ c) ∧
    (a.IsExact → c.IsExact → a.AtMost c) := by
  have hiff := atMost_iff_not_straddles a b c hab hbc
  have hne (h : b.Straddles a c) : a ≠ c := by
    rintro rfl
    obtain ⟨i, k, -, rfl, -, ⟨⟩, hlt⟩ := h
    omega
  refine ⟨hiff, (accepts_lessOrEqual c a).trans hiff, ?_, ?_⟩
  · exact fun h => ⟨roundsAlike_of_straddles a b c hab hbc h, hne h⟩
  · intro ha hc
    refine hiff.mpr fun h => hne h ?_
    exact eq_of_roundsAlike a c ha hc (roundsAlike_of_straddles a b c hab hbc h)

/-- An integer of 54 bits, the double that it is rounded to, and the next integer. -/
theorem atMost_chains_increasing :
    let a : Term := .int 9007199254740993
    let b : Term := .float (Double.ofInt 9007199254740992)
    let c : Term := .int 9007199254740994
    a.AtMost b ∧ b.AtMost c ∧ a.AtMost c ∧ (Filter.compare .lessOrEqual c).accepts a := by
  intro a b c
  have hab : a.AtMost b := by decide +kernel
  have hbc : b.AtMost c := by decide +kernel
  have hstraddles : ¬ b.Straddles a c := by
    rintro ⟨i, k, x, hi, -, hk, hlt⟩
    rw [← int.inj hi, ← int.inj hk] at hlt
    exact absurd hlt (by decide)
  obtain ⟨hiff, hkeeps, -, -⟩ := atMost_chains a b c hab hbc
  exact ⟨hab, hbc, hiff.mpr hstraddles, hkeeps.mpr hstraddles⟩

/-- Between an integer of 54 bits and the integer before it there is the double that both become. -/
theorem atMost_not_trans :
    let a : Term := .int 9007199254740993
    let b : Term := .float (Double.ofInt 9007199254740992)
    let c : Term := .int 9007199254740992
    a.AtMost b ∧ b.AtMost c ∧ ¬ a.AtMost c := by
  decide +kernel

end QuadGraph.Term
