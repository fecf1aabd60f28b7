import QuadGraph.Proofs.Path.Sorting
import QuadGraph.Proofs.Term.Native

/-! The native comparison against the canonical order. A term that is natively less than another one
comes before it, but for integers that are rounded alike, which come at one place. So in sorted
matches a term is natively less than an earlier one only if the two are such integers, and only if
they came in this order. -/
namespace QuadGraph

/-- What is less in the numeric order is less in the total order. -/
theorem Double.totalKey_lt_of_numericKey (x y : Double) (m n : Int) (hx : x.numericKey? = some m)
    (hy : y.numericKey? = some n) (h : m < n) : x.totalKey < y.totalKey := by
  match x, y with
  | .number false a, .number false b => cases hx; cases hy; exact h
  | .number false a, .number true b => cases hx; cases hy; omega
  | .number true a, .number false b =>
    cases hx; cases hy
    simp only [totalKey, isNegative, rank, if_true, Bool.false_eq_true, if_false]
    omega
  | .number true a, .number true b =>
    cases hx; cases hy
    simp only [totalKey, isNegative, rank, if_true]
    omega

namespace Term

/-- A term compares as less than another one. -/
def Below (a b : Term) : Prop :=
  a.compareNative? b = some .lt

instance (a b : Term) : Decidable (a.Below b) :=
  inferInstanceAs (Decidable (_ = _))

theorem compareCanonical_of_totalKey (a b : Term) (x y : Double) (ha : a.numeric? = some x)
    (hb : b.numeric? = some y) (h : x.totalKey < y.totalKey) : a.compareCanonical b = .lt := by
  have hrank : a.rank = b.rank := by
    rw [(isSome_numeric?_iff a).mp (by rw [ha]; rfl), (isSome_numeric?_iff b).mp (by rw [hb]; rfl)]
  have hkeys : x.totalCompare y = .lt := Int.compare_eq_lt.mpr h
  rw [compareCanonical, hrank, ha, hb, Std.ReflOrd.compare_self]
  simp only [hkeys]
  rfl

theorem compareCanonical_of_compare? (a b : Term) (x y : Double) (ha : a.numeric? = some x)
    (hb : b.numeric? = some y) (h : x.compare? y = some .lt) : a.compareCanonical b = .lt := by
  obtain ⟨m, hm, hrest⟩ := Option.bind_eq_some_iff.mp h
  obtain ⟨n, hn, hlt⟩ := Option.bind_eq_some_iff.mp hrest
  exact compareCanonical_of_totalKey a b x y ha hb
    (Double.totalKey_lt_of_numericKey x y m n hm hn (Int.compare_eq_lt.mp (Option.some.inj hlt)))

theorem parts_of_text (t : Term) (s : String) (h : t.text? = some s) :
    t.rank = 1 ∧ t.numeric? = none ∧ t.lexical = s := by
  cases t <;> cases h <;> exact ⟨rfl, rfl, rfl⟩

theorem compareCanonical_of_text (a b : Term) (s t : String) (ha : a.text? = some s)
    (hb : b.text? = some t) (h : compare s t = .lt) : a.compareCanonical b = .lt := by
  obtain ⟨hra, hna, rfl⟩ := parts_of_text a s ha
  obtain ⟨hrb, hnb, rfl⟩ := parts_of_text b t hb
  rw [compareCanonical, hra, hrb, hna, hnb, Std.ReflOrd.compare_self, h]
  rfl

/-- Of two integers the smaller one comes first, unless both become the same double. -/
theorem compareCanonical_of_int (i j : Int64) (h : i.toInt < j.toInt) :
    (int i).compareCanonical (int j) = .lt ∨ (int i).RoundsAlike (int j) := by
  rcases Int.lt_or_eq_of_le (Double.integerKey_mono _ _ (Int.le_of_lt h)) with hlt | heq
  · left
    exact compareCanonical_of_totalKey _ _ _ _ rfl rfl (Double.totalKey_lt_of_numericKey _ _ _ _
      (Double.numericKey?_ofInt _) (Double.numericKey?_ofInt _) hlt)
  · exact Or.inr ⟨i, j, rfl, rfl, Double.ofInt_eq_of_integerKey_eq _ _ heq⟩

theorem compareCanonical_of_below (a b : Term) (h : a.Below b) :
    a.compareCanonical b = .lt ∨ a.RoundsAlike b := by
  unfold Below compareNative? at h
  split at h
  next i j => exact compareCanonical_of_int i j (Int.compare_eq_lt.mp (Option.some.inj h))
  next i y => exact Or.inl (compareCanonical_of_compare? _ _ _ _ rfl rfl h)
  next x j => exact Or.inl (compareCanonical_of_compare? _ _ _ _ rfl rfl h)
  next x y => exact Or.inl (compareCanonical_of_compare? _ _ _ _ rfl rfl h)
  next p q =>
    left
    revert p q
    decide
  next =>
    obtain ⟨s, hs, hrest⟩ := Option.bind_eq_some_iff.mp h
    obtain ⟨t, ht, hlt⟩ := Option.bind_eq_some_iff.mp hrest
    exact Or.inl (compareCanonical_of_text _ _ s t hs ht (Option.some.inj hlt))

theorem compareCanonical_of_below_iff (a b : Term) (h : a.Below b) :
    a.compareCanonical b = .lt ↔ ¬ a.RoundsAlike b := by
  constructor
  · intro hlt halike
    rw [(compareCanonical_eq_eq_iff a b).mpr (Or.inr halike)] at hlt
    cases hlt
  · exact (compareCanonical_of_below a b h).resolve_right

theorem not_below_self (a : Term) : ¬ a.Below a := by
  intro h
  rcases compareCanonical_of_below a a h with hlt | ⟨i, -, rfl, -, -⟩
  · have hself : a.compareCanonical a = .eq := Std.ReflCmp.compare_self
    rw [hself] at hlt
    cases hlt
  · exact absurd (Int.compare_eq_lt.mp (Option.some.inj h)) (Int.lt_irrefl _)

end Term

namespace Binding

variable {term : Binding → Term} {found out : List Binding}

/-- Of two matches in a row of sorted ones, the later one can only be at a smaller term if it comes
to the same place. -/
theorem SortsStably.roundsAlike (h : SortsStably term found out) (b c : Binding)
    (hbc : [b, c].Sublist out) (hless : (term c).Below (term b)) :
    (term c).RoundsAlike (term b) := by
  have hle := h.ordered.sublist hbc
  rw [List.pairwise_pair] at hle
  rcases Term.compareCanonical_of_below _ _ hless with hlt | halike
  · exact absurd (Std.OrientedCmp.gt_iff_lt.mpr hlt) hle
  · exact halike

/-- Matches that come to the same place stay in the order in which they were found. -/
theorem SortsStably.pair_sublist_iff (h : SortsStably term found out) (b c : Binding)
    (hsame : (term c).compareCanonical (term b) = .eq) :
    [b, c].Sublist out ↔ [b, c].Sublist found := by
  let here (d : Binding) : Bool := (term d).compareCanonical (term b) = .eq
  have hpair : [b, c].filter here = [b, c] := by
    rw [List.filter_eq_self]
    intro d hd
    rcases List.mem_pair.mp hd with rfl | rfl
    · exact decide_eq_true Std.ReflCmp.compare_self
    · exact decide_eq_true hsame
  have hstable : out.filter here = found.filter here := h.stable (term b)
  constructor
  · intro hsub
    have hfiltered := hsub.filter here
    rw [hpair, hstable] at hfiltered
    exact hfiltered.trans List.filter_sublist
  · intro hsub
    have hfiltered := hsub.filter here
    rw [hpair, ← hstable] at hfiltered
    exact hfiltered.trans List.filter_sublist

end Binding

namespace Path

open Binding Outcome Term Walking

/-- A term that is natively less than another one comes before it in the canonical order, unless
both are integers that are rounded alike, which 53 bits are not enough for. So after sorting, a
later term is natively less than an earlier one exactly if the two are such integers and came in
this order already, and never if 53 bits are enough for all integers. -/
theorem order_follows_native (t u : Term) (store : QuadStore) (source : Path)
    (seed : Option Binding) :
    (t.Below u → (t.compareCanonical u = .lt ↔ ¬ t.RoundsAlike u) ∧
      (t.IsExact → u.IsExact → t.compareCanonical u = .lt)) ∧
    ∀ out, (order source).evaluate store seed = .ok out →
      ∃ (found : List Binding) (term : Binding → Term),
        source.evaluate store seed = .ok found ∧
        (∀ b ∈ found, store.termOf b.node = .ok (some (term b))) ∧
        (∀ b c, (term c).Below (term b) →
          ([b, c].Sublist out ↔ [b, c].Sublist found ∧ (term c).RoundsAlike (term b))) ∧
        ((∀ b ∈ found, (term b).IsExact) →
          out.Pairwise fun b c => ¬ (term c).Below (term b)) := by
  refine ⟨fun h => ?_, fun out hout => ?_⟩
  · have hiff := compareCanonical_of_below_iff t u h
    refine ⟨hiff, fun ht hu => hiff.mpr fun halike => ?_⟩
    exact not_below_self u (eq_of_roundsAlike t u ht hu halike ▸ h)
  · obtain ⟨found, hfound, hsorted⟩ := (bind_eq_ok _ _ out).mp hout
    obtain ⟨term, hterm⟩ := exists_term_of_sorted hsorted
    have hstable : SortsStably term found out := by
      rw [sorted_eq_mergeSort hterm] at hsorted
      cases hsorted
      exact sortsStably_mergeSort term found
    refine ⟨found, term, hfound, hterm, fun b c hless => ?_, fun hexact => ?_⟩
    · have hsublist (halike : (term c).RoundsAlike (term b)) :=
        hstable.pair_sublist_iff b c ((compareCanonical_eq_eq_iff _ _).mpr (Or.inr halike))
      constructor
      · intro hsub
        have halike := hstable.roundsAlike b c hsub hless
        exact ⟨(hsublist halike).mp hsub, halike⟩
      · rintro ⟨hsub, halike⟩
        exact (hsublist halike).mpr hsub
    · rw [List.pairwise_iff_forall_sublist]
      intro b c hsub hless
      have hmem (d : Binding) (hd : d ∈ [b, c]) : (term d).IsExact :=
        hexact d (hstable.perm.subset (hsub.subset hd))
      have hsame := eq_of_roundsAlike _ _ (hmem c (by simp)) (hmem b (by simp))
        (hstable.roundsAlike b c hsub hless)
      exact not_below_self _ (hsame ▸ hless)

/-- An integer and a smaller float, put in order. -/
theorem order_follows_native_ages :
    let store := (Graph.ofQuads [⟨.iri "alice", .iri "age", .int 10, none⟩,
      ⟨.iri "bob", .iri "age", .float (Double.ofInt 9), none⟩]).toStore
    let source : Path := .fixed [⟨2⟩, ⟨4⟩]
    let out := [Binding.start ⟨4⟩, Binding.start ⟨2⟩]
    (Term.float (Double.ofInt 9)).Below (.int 10) ∧
      (Term.float (Double.ofInt 9)).compareCanonical (.int 10) = .lt ∧
      (order source).evaluate store none = .ok out ∧
      out.Pairwise fun b c => ∀ t u, store.termOf b.node = .ok (some t) →
        store.termOf c.node = .ok (some u) → ¬ u.Below t := by
  intro store source out
  let found := [Binding.start ⟨2⟩, Binding.start ⟨4⟩]
  let age (b : Binding) : Term := if b.node = ⟨2⟩ then .int 10 else .float (Double.ofInt 9)
  have hage : ∀ b ∈ found, store.termOf b.node = .ok (some (age b)) := by decide +kernel
  have hless : (Term.float (Double.ofInt 9)).Below (.int 10) := by decide +kernel
  have hout : (order source).evaluate store none = .ok out := by
    have hlater : inOrder age (.start ⟨2⟩) (.start ⟨4⟩) = false := by decide +kernel
    have hsort : found.mergeSort (inOrder age) = out := by
      simp [found, out, List.mergeSort, hlater]
    rw [← hsort]
    exact sorted_eq_mergeSort hage
  obtain ⟨hterms, horder⟩ :=
    order_follows_native (.float (Double.ofInt 9)) (.int 10) store source none
  have hexact (t : Term) (ht : t = .int 10 ∨ t = .float (Double.ofInt 9)) : t.IsExact := by
    rintro i rfl
    rcases ht with ht | ht
    · rw [int.inj ht]
      decide
    · cases ht
  refine ⟨hless, (hterms hless).2 (hexact _ (Or.inr rfl)) (hexact _ (Or.inl rfl)), hout, ?_⟩
  obtain ⟨found', term, hfound, hterm, -, hpairwise⟩ := horder out hout
  obtain rfl : found = found' := Except.ok.inj hfound
  have hmem : ∀ b ∈ out, b ∈ found := by decide +kernel
  have hread (b : Binding) (hb : b ∈ found) (t : Term) (ht : store.termOf b.node = .ok (some t)) :
      term b = t :=
    Option.some.inj (Except.ok.inj ((hterm b hb).symm.trans ht))
  have hages : ∀ b ∈ found, age b = .int 10 ∨ age b = .float (Double.ofInt 9) := by decide +kernel
  refine (hpairwise fun b hb => ?_).imp_of_mem fun {b c} hb hc hless t u ht hu => ?_
  · rw [hread b hb _ (hage b hb)]
    exact hexact _ (hages b hb)
  · rwa [hread b (hmem b hb) t ht, hread c (hmem c hc) u hu] at hless

/-- Two integers that become one double: the greater one is natively greater, but it comes to the
same place, and ordering leaves it in front of the smaller one. -/
theorem order_leaves_greater_first :
    let greater : Term := .int 9007199254740993
    let smaller : Term := .int 9007199254740992
    let store := (Graph.ofQuads [⟨.iri "x", .iri "p", greater, none⟩,
      ⟨.iri "x", .iri "p", smaller, none⟩]).toStore
    let out := [Binding.start ⟨2⟩, Binding.start ⟨3⟩]
    smaller.Below greater ∧ smaller.compareCanonical greater ≠ .lt ∧
      store.termOf ⟨2⟩ = .ok (some greater) ∧ store.termOf ⟨3⟩ = .ok (some smaller) ∧
      (order (.fixed [⟨2⟩, ⟨3⟩])).evaluate store none = .ok out := by
  intro greater smaller store out
  let term (b : Binding) : Term := if b.node = ⟨2⟩ then greater else smaller
  have hterm : ∀ b ∈ out, store.termOf b.node = .ok (some (term b)) := by decide +kernel
  have hplaced : out.Pairwise fun b c => inOrder term b c := by decide +kernel
  have hout : (order (.fixed [⟨2⟩, ⟨3⟩])).evaluate store none = .ok out := by
    rw [← List.mergeSort_of_pairwise hplaced]
    exact sorted_eq_mergeSort hterm
  exact ⟨by decide +kernel, by decide +kernel, by decide +kernel, by decide +kernel, hout⟩

end Path

end QuadGraph
