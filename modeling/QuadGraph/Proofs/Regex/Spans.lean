import Mathlib.Order.Nat
import QuadGraph.Regex.Expr

/-! What a regular expression takes up. Of every kind of expression it is said on its own between
which places of a text it can stand. Matching by marks finds just these places: the marks that are
moved along an expression come to lie where it ends if it starts at a marked place. -/
namespace QuadGraph.Regex

/-- A relation taken a number of times in a row. -/
def Rounds (R : Nat → Nat → Prop) : Nat → Nat → Nat → Prop
  | 0, i, j => i = j
  | n + 1, i, j => ∃ k, R i k ∧ Rounds R n k j

section Rounds

variable {R : Nat → Nat → Prop} {i j : Nat}

theorem rounds_add (m n : Nat) :
    Rounds R (m + n) i j ↔ ∃ k, Rounds R m i k ∧ Rounds R n k j := by
  induction m generalizing i with
  | zero => simp [Rounds]
  | succ m ih =>
    rw [Nat.succ_add]
    simp only [Rounds, ih]
    constructor
    · rintro ⟨k, hk, l, hl, hj⟩
      exact ⟨l, ⟨k, hk, hl⟩, hj⟩
    · rintro ⟨l, ⟨k, hk, hl⟩, hj⟩
      exact ⟨k, hk, l, hl, hj⟩

/-- What one round keeps is kept by any number of rounds. -/
theorem rounds_keep (P : Nat → Prop) (hR : ∀ i j, R i j → P i → P j) {n : Nat}
    (h : Rounds R n i j) (hi : P i) : P j := by
  induction n generalizing i with
  | zero => exact h ▸ hi
  | succ n ih =>
    obtain ⟨k, hk, hj⟩ := h
    exact ih hj (hR i k hk hi)

theorem rounds_stay (m n : Nat) (hi : R i i) (h : Rounds R n i j) : Rounds R (m + n) i j := by
  induction m with
  | zero => rwa [Nat.zero_add]
  | succ m ih =>
    rw [Nat.succ_add]
    exact ⟨i, hi, ih⟩

/-- More rounds than there are steps from a place to a later one make a round that stays where it
is, so any other number of rounds that is large enough comes to the same place. -/
theorem rounds_of_long (hR : ∀ i j, R i j → i ≤ j) (m n : Nat) (h : Rounds R m i j)
    (hm : j - i < m) (hn : j - i < n) : Rounds R n i j := by
  induction m generalizing i n with
  | zero => omega
  | succ m ih =>
    obtain ⟨k, hk, hj⟩ := h
    have hik : i ≤ k := hR i k hk
    have hkj : k ≤ j := rounds_keep (k ≤ ·) (fun a b hab hka => hka.trans (hR a b hab)) hj le_rfl
    -- A first round that stays where it is can be repeated or left out; after any other one the
    -- place is nearer.
    rcases hik.eq_or_lt with rfl | hlt
    · rcases Nat.le_total m n with hmn | hnm
      · rw [← Nat.sub_add_cancel hmn]
        exact rounds_stay _ m hk hj
      · rcases hnm.eq_or_lt with rfl | hlt
        · exact hj
        · exact ih n hj (by omega) hn
    · obtain ⟨n, rfl⟩ := Nat.exists_eq_succ_of_ne_zero (Nat.ne_zero_of_lt hn)
      exact ⟨k, hk, ih n hj (by omega) (by omega)⟩

end Rounds

namespace Expr

/-- The character before a place of a text that stands behind another character, if there is one. -/
def before (c : Option Char) (text : List Char) : Nat → Option Char
  | 0 => c
  | i + 1 => text[i]?

/-- An expression can take up what stands between two places of a text. -/
def Spans (text : List Char) : Expr → Nat → Nat → Prop
  | .empty, i, j => i = j
  | .one members, i, j => j = i + 1 ∧ ∃ c, text[i]? = some c ∧ members.contains c
  | .look condition, i, j => i = j ∧ condition.holds (before none text i) text[i]?
  | .sequence first second, i, j => ∃ k, Spans text first i k ∧ Spans text second k j
  | .either left right, i, j => Spans text left i j ∨ Spans text right i j
  | .repetition least most inner, i, j =>
    ∃ more, (∀ bound, most = some bound → more ≤ bound - least) ∧
      Rounds (Spans text inner) (least + more) i j

variable {text : List Char}

/-- An expression ends where it starts or later, and not behind the text. -/
theorem spans_bounds (e : Expr) (i j : Nat) (h : e.Spans text i j) :
    i ≤ j ∧ (i ≤ text.length → j ≤ text.length) := by
  induction e generalizing i j with
  | empty =>
    cases h
    exact ⟨le_rfl, id⟩
  | one members =>
    obtain ⟨rfl, c, hc, -⟩ := h
    obtain ⟨hi, -⟩ := List.getElem?_eq_some_iff.mp hc
    exact ⟨Nat.le_succ i, fun _ => hi⟩
  | look condition =>
    cases h.1
    exact ⟨le_rfl, id⟩
  | sequence first second ihfirst ihsecond =>
    obtain ⟨k, hfirst, hsecond⟩ := h
    obtain ⟨hik, hk⟩ := ihfirst i k hfirst
    obtain ⟨hkj, hj⟩ := ihsecond k j hsecond
    exact ⟨hik.trans hkj, hj ∘ hk⟩
  | either left right ihleft ihright =>
    rcases h with h | h
    · exact ihleft i j h
    · exact ihright i j h
  | repetition least most inner ih =>
    obtain ⟨more, -, hrounds⟩ := h
    exact ⟨rounds_keep (i ≤ ·) (fun a b hab hia => hia.trans (ih a b hab).1) hrounds le_rfl,
      rounds_keep (· ≤ text.length) (fun a b hab => (ih a b hab).2) hrounds⟩

/-- A place is marked. -/
def Marked (places : List Bool) (i : Nat) : Prop :=
  places[i]? = some true

/-- Marks on the places of a text of some length are moved along a relation: what is marked then is
what the relation leads to from a marked place. -/
def Moves (length : Nat) (R : Nat → Nat → Prop) (f : List Bool → List Bool) : Prop :=
  ∀ places, places.length = length + 1 →
    (f places).length = length + 1 ∧ ∀ j, Marked (f places) j ↔ ∃ i, Marked places i ∧ R i j

section Moves

variable {length : Nat} {R S : Nat → Nat → Prop} {f g : List Bool → List Bool}
  {places : List Bool}

theorem le_of_marked (hplaces : places.length = length + 1) {i : Nat} (h : Marked places i) :
    i ≤ length := by
  obtain ⟨hi, -⟩ := List.getElem?_eq_some_iff.mp h
  omega

theorem moves_congr (h : Moves length R f) (hRS : ∀ i j, i ≤ length → (R i j ↔ S i j)) :
    Moves length S f := by
  intro places hplaces
  obtain ⟨hlength, hmarked⟩ := h places hplaces
  refine ⟨hlength, fun j => (hmarked j).trans (exists_congr fun i => and_congr_right fun hi => ?_)⟩
  exact hRS i j (le_of_marked hplaces hi)

theorem moves_comp (hf : Moves length R f) (hg : Moves length S g) :
    Moves length (fun i j => ∃ k, R i k ∧ S k j) (g ∘ f) := by
  intro places hplaces
  obtain ⟨hlength, hmarked⟩ := hf places hplaces
  obtain ⟨hlength', hmarked'⟩ := hg _ hlength
  refine ⟨hlength', fun j => (hmarked' j).trans ?_⟩
  simp only [hmarked]
  constructor
  · rintro ⟨k, ⟨i, hi, hik⟩, hkj⟩
    exact ⟨i, hi, k, hik, hkj⟩
  · rintro ⟨i, hi, k, hik, hkj⟩
    exact ⟨k, ⟨i, hi, hik⟩, hkj⟩

theorem marked_zipWith_or (xs ys : List Bool) (hlength : xs.length = ys.length) (j : Nat) :
    Marked (List.zipWith (· || ·) xs ys) j ↔ Marked xs j ∨ Marked ys j := by
  unfold Marked
  rw [List.getElem?_zipWith]
  rcases Nat.lt_or_ge j xs.length with hj | hj
  · rw [List.getElem?_eq_getElem hj, List.getElem?_eq_getElem (hlength ▸ hj)]
    simp
  · rw [List.getElem?_eq_none hj, List.getElem?_eq_none (hlength ▸ hj)]
    simp

theorem moves_or (hf : Moves length R f) (hg : Moves length S g) :
    Moves length (fun i j => R i j ∨ S i j) fun places =>
      List.zipWith (· || ·) (f places) (g places) := by
  intro places hplaces
  obtain ⟨hlength, hmarked⟩ := hf places hplaces
  obtain ⟨hlength', hmarked'⟩ := hg places hplaces
  refine ⟨by rw [List.length_zipWith, hlength, hlength', Nat.min_self], fun j => ?_⟩
  rw [marked_zipWith_or _ _ (hlength.trans hlength'.symm), hmarked, hmarked', ← exists_or]
  simp only [and_or_left]

theorem moves_id : Moves length (fun i j => i = j) id :=
  fun places hplaces => ⟨hplaces, fun j => by simp⟩

theorem moves_iterate (hf : Moves length R f) (n : Nat) :
    Moves length (Rounds R n) (iterate f n) := by
  induction n with
  | zero => exact moves_id
  | succ n ih => exact moves_comp hf ih

/-- Growing stops early only where another round would reach nothing new. -/
theorem moves_grow (hf : Moves length R f) (n : Nat) :
    Moves length (fun i j => ∃ m ≤ n, Rounds R m i j) (grow f n) := by
  induction n with
  | zero => exact moves_congr moves_id fun i j _ => by simp [Rounds]
  | succ n ih =>
    intro places hplaces
    obtain ⟨hlength, hmarked⟩ := moves_or moves_id hf places hplaces
    rw [grow]
    dsimp only [id_eq] at hlength hmarked ⊢
    split
    · next hsame =>
      -- The marked places are closed under a round, so under any number of rounds.
      rw [hsame] at hmarked
      have hclosed : ∀ i j, R i j → Marked places i → Marked places j :=
        fun i j hij hi => (hmarked j).mpr ⟨i, hi, .inr hij⟩
      refine ⟨hplaces, fun j => ⟨fun hj => ⟨j, hj, 0, Nat.zero_le _, rfl⟩, ?_⟩⟩
      rintro ⟨i, hi, m, -, hrounds⟩
      exact rounds_keep _ hclosed hrounds hi
    · obtain ⟨hlength', hmarked'⟩ := ih _ hlength
      refine ⟨hlength', fun j => (hmarked' j).trans ?_⟩
      simp only [hmarked]
      constructor
      · rintro ⟨k, ⟨i, hi, rfl | hik⟩, m, hm, hrounds⟩
        · exact ⟨i, hi, m, Nat.le_succ_of_le hm, hrounds⟩
        · exact ⟨i, hi, m + 1, Nat.succ_le_succ hm, k, hik, hrounds⟩
      · rintro ⟨i, hi, m, hm, hrounds⟩
        cases m with
        | zero => exact ⟨i, ⟨i, hi, .inl rfl⟩, 0, Nat.zero_le n, hrounds⟩
        | succ m =>
          obtain ⟨k, hik, hrounds⟩ := hrounds
          exact ⟨k, ⟨i, hi, .inr hik⟩, m, Nat.le_of_succ_le_succ hm, hrounds⟩

end Moves

theorem getElem?_sides (c : Option Char) (text : List Char) (i : Nat) (hi : i ≤ text.length) :
    (sides c text)[i]? = some (before c text i, text[i]?) := by
  induction text generalizing c i with
  | nil =>
    obtain rfl : i = 0 := Nat.le_zero.mp hi
    rfl
  | cons d rest ih =>
    cases i with
    | zero => rfl
    | succ i =>
      rw [sides, List.getElem?_cons_succ, ih (some d) i (Nat.le_of_succ_le_succ hi)]
      cases i <;> rfl

theorem length_sides (c : Option Char) (text : List Char) :
    (sides c text).length = text.length + 1 := by
  induction text generalizing c with
  | nil => rfl
  | cons d rest ih => rw [sides, List.length_cons, ih, List.length_cons]

theorem moves_one (members : CharClass) :
    Moves text.length ((Expr.one members).Spans text) (advance text (.one members)) := by
  intro places hplaces
  rw [advance]
  refine ⟨by rw [List.length_cons, List.length_zipWith, hplaces, Nat.min_eq_left (Nat.le_succ _)],
    fun j => ?_⟩
  cases j with
  | zero => simp [Marked, Spans]
  | succ j =>
    rw [Marked, List.getElem?_cons_succ, List.getElem?_zipWith_eq_some]
    simp only [Bool.and_eq_true]
    constructor
    · rintro ⟨c, _, hc, hplace, rfl, hmember⟩
      exact ⟨j, hplace, rfl, c, hc, hmember⟩
    · rintro ⟨_, hplace, ⟨⟩, c, hc, hmember⟩
      exact ⟨c, true, hc, hplace, rfl, hmember⟩

theorem moves_look (condition : Look) :
    Moves text.length ((Expr.look condition).Spans text) (advance text (.look condition)) := by
  intro places hplaces
  rw [advance]
  refine ⟨by rw [List.length_zipWith, length_sides, hplaces, Nat.min_self], fun j => ?_⟩
  rw [Marked, List.getElem?_zipWith_eq_some]
  simp only [Bool.and_eq_true]
  constructor
  · rintro ⟨side, _, hside, hplace, rfl, hholds⟩
    rw [getElem?_sides none text j (le_of_marked hplaces hplace)] at hside
    cases hside
    exact ⟨j, hplace, rfl, hholds⟩
  · rintro ⟨_, hplace, rfl, hholds⟩
    exact ⟨_, true, getElem?_sides none text _ (le_of_marked hplaces hplace), hplace, rfl, hholds⟩

/-- The rounds that are made are bounded by the number of places, which is enough. -/
theorem moves_repetition (least : Nat) (most : Option Nat) (inner : Expr)
    (h : Moves text.length (inner.Spans text) (advance text inner)) :
    Moves text.length ((Expr.repetition least most inner).Spans text)
      (advance text (.repetition least most inner)) := by
  have hlater (i j : Nat) (hij : inner.Spans text i j) : i ≤ j := (spans_bounds inner i j hij).1
  let bound := text.length + 1
  let extra := most.elim bound fun most => min (most - least) bound
  have hadvance : advance text (.repetition least most inner) =
      grow (advance text inner) extra ∘ iterate (advance text inner) (min least bound) := by
    funext places
    cases most with
    | none => rfl
    | some most => rfl
  rw [hadvance]
  -- Rounds beyond the number of places are all alike.
  have hsame (i j m n : Nat) (hi : i ≤ text.length) (hmn : m = n ∨ bound ≤ m ∧ bound ≤ n)
      (hrounds : Rounds (inner.Spans text) m i j) : Rounds (inner.Spans text) n i j := by
    have hj : j ≤ text.length := rounds_keep (· ≤ text.length)
      (fun a b hab => (spans_bounds inner a b hab).2) hrounds hi
    rcases hmn with rfl | ⟨hm, hn⟩
    · exact hrounds
    · exact rounds_of_long hlater m n hrounds (by omega) (by omega)
  refine moves_congr (moves_comp (moves_iterate h _) (moves_grow h extra)) fun i j hi => ?_
  simp only [Spans]
  constructor
  · rintro ⟨k, hk, m, hm, hj⟩
    refine ⟨m, ?_, hsame i j _ _ hi (by omega) ((rounds_add _ m).mpr ⟨k, hk, hj⟩)⟩
    rintro most rfl
    exact hm.trans (Nat.min_le_left _ _)
  · rintro ⟨more, hmore, hrounds⟩
    have hextra : min more bound ≤ extra := by
      cases most with
      | none => exact Nat.min_le_right _ _
      | some most =>
        exact Nat.le_min.mpr ⟨(Nat.min_le_left _ _).trans (hmore most rfl), Nat.min_le_right _ _⟩
    obtain ⟨k, hk, hj⟩ := (rounds_add (min least bound) (min more bound)).mp
      (hsame i j _ _ hi (by omega) hrounds)
    exact ⟨k, hk, min more bound, hextra, hj⟩

/-- Marks are moved along an expression to the places where it ends if it starts at a marked one. -/
theorem moves_advance (e : Expr) : Moves text.length (e.Spans text) (advance text e) := by
  induction e with
  | empty => exact moves_id
  | one members => exact moves_one members
  | look condition => exact moves_look condition
  | sequence first second ihfirst ihsecond => exact moves_comp ihfirst ihsecond
  | either left right ihleft ihright => exact moves_or ihleft ihright
  | repetition least most inner ih => exact moves_repetition least most inner ih

/-- An expression is found in a text exactly if there are places between which it can stand. -/
theorem isFoundIn_iff (e : Expr) (text : List Char) :
    e.isFoundIn text ↔ ∃ i j, i ≤ text.length ∧ e.Spans text i j := by
  have hmoves : Moves text.length (e.Spans text) (advance text e) := moves_advance e
  obtain ⟨-, hmarked⟩ := hmoves (List.replicate (text.length + 1) true) List.length_replicate
  have hstart (i : Nat) : Marked (List.replicate (text.length + 1) true) i ↔ i ≤ text.length := by
    rw [Marked, List.getElem?_replicate, Option.ite_none_right_eq_some, Nat.lt_succ_iff]
    exact and_iff_left rfl
  rw [isFoundIn, List.any_eq_true]
  simp only [id_eq, exists_eq_right, List.mem_iff_getElem?]
  rw [exists_comm]
  exact exists_congr fun j => (hmarked j).trans (exists_congr fun i => by rw [hstart])

end Expr

end QuadGraph.Regex
