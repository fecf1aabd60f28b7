import QuadGraph.Proofs.JsonLd.Alike
import QuadGraph.Proofs.Number.Order

/-! The canonical order of terms. It looks at one thing after another, so it can be turned round and
chained. Two terms come at the same place if they are equal, and otherwise only if they are integers
that become the same double. -/
namespace QuadGraph.Term

/-- The place of a number among the numbers; other terms share one. -/
def amount (t : Term) : Int :=
  (t.numeric?.map Double.totalKey).getD 0

/-- The text by which a term is compared; numbers are not compared by theirs. -/
def letters (t : Term) : String :=
  if t.numeric?.isSome then "" else t.lexical

theorem numeric?_eq_some (t : Term) (x : Double) (h : t.numeric? = some x) :
    (∃ i, t = .int i ∧ x = Double.ofInt i.toInt) ∨ t = .float x := by
  cases t with
  | int i => exact Or.inl ⟨i, rfl, (Option.some.inj h).symm⟩
  | float y => exact Or.inr (congrArg float (Option.some.inj h))
  | _ => cases h

theorem isSome_numeric?_iff (t : Term) : t.numeric?.isSome ↔ t.rank = 2 := by
  cases t <;> simp [numeric?, rank]

/-- A number says nothing more than its kind and its amount. -/
theorem parts_of_numeric (a b : Term) (ha : a.numeric?.isSome) (hb : b.numeric?.isSome)
    (hkind : a.kind = b.kind) : a.datatype? = b.datatype? ∧ a.language? = b.language? := by
  obtain ⟨x, hx⟩ := Option.isSome_iff_exists.mp ha
  obtain ⟨y, hy⟩ := Option.isSome_iff_exists.mp hb
  rcases numeric?_eq_some a x hx with ⟨i, rfl, -⟩ | rfl <;>
    rcases numeric?_eq_some b y hy with ⟨j, rfl, -⟩ | rfl
  · exact ⟨rfl, rfl⟩
  · cases hkind
  · cases hkind
  · exact ⟨rfl, rfl⟩

/-- The canonical order compares one part after another. -/
theorem compareCanonical_eq_compareLex (a b : Term) :
    a.compareCanonical b =
      compareLex (compareOn rank) (compareLex (compareOn amount) (compareLex (compareOn letters)
        (compareLex (compareOn kind) (compareLex (compareOn datatype?) (compareOn language?)))))
        a b := by
  unfold compareCanonical
  cases hrank : compare a.rank b.rank with
  | lt => simp [compareLex, compareOn, hrank]
  | gt => simp [compareLex, compareOn, hrank]
  | eq =>
    -- Of one rank, either both are numbers or neither is.
    have hboth : a.numeric?.isSome ↔ b.numeric?.isSome := by
      rw [isSome_numeric?_iff, isSome_numeric?_iff, Std.LawfulEqOrd.eq_of_compare hrank]
    cases ha : a.numeric? with
    | none =>
      have hb : b.numeric? = none := by simpa [ha] using hboth
      simp [compareLex, compareOn, hrank, amount, letters, ha, hb]
    | some x =>
      obtain ⟨y, hb⟩ := Option.isSome_iff_exists.mp (hboth.mp (by rw [ha]; rfl))
      have hrest : (compare a.kind b.kind).then ((compare a.datatype? b.datatype?).then
          (compare a.language? b.language?)) = compare a.kind b.kind := by
        cases hkind : compare a.kind b.kind with
        | lt => rfl
        | gt => rfl
        | eq =>
          obtain ⟨hdatatype, hlanguage⟩ := parts_of_numeric a b (by rw [ha]; rfl) (by rw [hb]; rfl)
            (Std.LawfulEqOrd.eq_of_compare hkind)
          simp [hdatatype, hlanguage]
      simp [compareLex, compareOn, hrank, amount, letters, ha, hb, hrest, Double.totalCompare]

instance : Std.TransCmp compareCanonical := by
  have hsame : compareCanonical = compareLex (compareOn rank) (compareLex (compareOn amount)
      (compareLex (compareOn letters) (compareLex (compareOn kind)
        (compareLex (compareOn datatype?) (compareOn language?))))) :=
    funext fun a => funext fun b => compareCanonical_eq_compareLex a b
  rw [hsame]
  infer_instance

/-- Integers that become one double. -/
def RoundsAlike (a b : Term) : Prop :=
  ∃ i j : Int64, a = .int i ∧ b = .int j ∧ Double.ofInt i.toInt = Double.ofInt j.toInt

/-- A term that is no integer of more than 53 bits. -/
def IsExact (t : Term) : Prop :=
  ∀ i : Int64, t = .int i → i.toInt.natAbs ≤ 2 ^ 53

theorem eq_of_roundsAlike (a b : Term) (ha : a.IsExact) (hb : b.IsExact) (h : a.RoundsAlike b) :
    a = b := by
  obtain ⟨i, j, rfl, rfl, hround⟩ := h
  have hsame : i.toInt = j.toInt := Double.ofInt_inj _ _ (ha i rfl) (hb j rfl) hround
  exact congrArg int (Int64.toInt_inj.mp hsame)

/-- Numbers of one kind and one amount are equal, or are rounded alike. -/
theorem eq_or_roundsAlike (a b : Term) (x y : Double) (ha : a.numeric? = some x)
    (hb : b.numeric? = some y) (hkind : a.kind = b.kind) (hxy : x = y) :
    a = b ∨ a.RoundsAlike b := by
  rcases numeric?_eq_some a x ha with ⟨i, rfl, hi⟩ | rfl <;>
    rcases numeric?_eq_some b y hb with ⟨j, rfl, hj⟩ | rfl
  · exact Or.inr ⟨i, j, rfl, rfl, hi.symm.trans (hxy.trans hj)⟩
  · cases hkind
  · cases hkind
  · exact Or.inl (congrArg float hxy)

theorem compareCanonical_eq_eq_iff (a b : Term) :
    a.compareCanonical b = .eq ↔ a = b ∨ a.RoundsAlike b := by
  constructor
  · intro h
    rw [compareCanonical_eq_compareLex] at h
    simp only [compareLex_eq_eq, compareOn, Std.LawfulEqOrd.compare_eq_iff_eq] at h
    obtain ⟨hrank, hamount, hletters, hkind, hdatatype, hlanguage⟩ := h
    have hboth : a.numeric?.isSome ↔ b.numeric?.isSome := by
      rw [isSome_numeric?_iff, isSome_numeric?_iff, hrank]
    -- A number is told by its kind and its amount, any other term by its parts and its text.
    cases ha : a.numeric? with
    | none =>
      have hb : b.numeric? = none := by simpa [ha] using hboth
      have htext : a.lexical = b.lexical := by simpa [letters, ha, hb] using hletters
      have hsame := normalize_eq_of_lexical a b hkind hdatatype hlanguage htext
      rcases eq_or_bothNaN a b hsame with heq | ⟨n, -, p, -, rfl, -⟩
      · exact Or.inl heq
      · cases ha
    | some x =>
      obtain ⟨y, hb⟩ := Option.isSome_iff_exists.mp (hboth.mp (by rw [ha]; rfl))
      have hxy : x = y := by
        apply Double.totalKey_injective
        simpa [amount, ha, hb] using hamount
      exact eq_or_roundsAlike a b x y ha hb hkind hxy
  · rintro (rfl | ⟨i, j, rfl, rfl, hround⟩)
    · exact Std.ReflCmp.compare_self
    · have hnumbers : (Double.ofInt i.toInt).totalCompare (Double.ofInt j.toInt) = .eq := by
        rw [hround]
        exact Std.ReflOrd.compare_self
      change ((Double.ofInt i.toInt).totalCompare (Double.ofInt j.toInt)).then _ = .eq
      rw [hnumbers]
      rfl

/-- The canonical order can be turned round and chained. It puts different terms at one place
exactly if they are integers that are rounded alike, and never if 53 bits are enough for them. -/
theorem compareCanonical_orders (a b c : Term) :
    (a.compareCanonical b = .eq ↔ a = b ∨ a.RoundsAlike b) ∧
    (a.IsExact → b.IsExact → (a.compareCanonical b = .eq ↔ a = b)) ∧
    b.compareCanonical a = (a.compareCanonical b).swap ∧
    (a.compareCanonical b = .lt → b.compareCanonical c = .lt → a.compareCanonical c = .lt) := by
  refine ⟨compareCanonical_eq_eq_iff a b, ?_, Std.OrientedCmp.eq_swap, Std.TransCmp.lt_trans⟩
  intro ha hb
  rw [compareCanonical_eq_eq_iff]
  constructor
  · rintro (h | h)
    · exact h
    · exact eq_of_roundsAlike a b ha hb h
  · exact Or.inl

/-- A text, the zero below zero, and the greatest integer that 53 bits hold, in this order. -/
theorem compareCanonical_orders_zero :
    let a : Term := .plain "0"
    let b : Term := .float (.number true .zero)
    let c : Term := .int 9007199254740992
    (b.compareCanonical c = .eq ↔ b = c) ∧ c.compareCanonical b = .gt ∧
      a.compareCanonical c = .lt := by
  intro a b c
  have hb : b.IsExact := nofun
  have hc : c.IsExact := by
    intro i hi
    rw [← int.inj hi]
    decide
  have hab : a.compareCanonical b = .lt := by decide +kernel
  have hbc : b.compareCanonical c = .lt := by decide +kernel
  obtain ⟨-, hexact, hswap, -⟩ := compareCanonical_orders b c c
  obtain ⟨-, -, -, hchain⟩ := compareCanonical_orders a b c
  rw [hbc] at hswap
  exact ⟨hexact hb hc, hswap, hchain hab hbc⟩

/-- Integers that differ in the last of 54 bits come at one place. -/
theorem compareCanonical_conflates :
    compareCanonical (.int 9007199254740993) (.int 9007199254740992) = .eq ∧
      Term.int 9007199254740993 ≠ .int 9007199254740992 := by
  decide +kernel

end QuadGraph.Term
