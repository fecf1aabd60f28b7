import Mathlib.Data.Finset.Card
import Mathlib.Data.List.Induction
import Mathlib.Data.List.Nodup

/-! Things in the order in which they come up first. A list without its repetitions is told by those
of its parts, so that repeating what has come up, or taking things in another arrangement of the
same first appearances, does not change it. -/
namespace QuadGraph

variable {α β κ : Type}

/-- What one more element at the end adds is a place, the next one. -/
theorem getElem?_concat (xs : List α) (x : α) (k : Nat) :
    (xs ++ [x])[k]? = if xs.length = k then some x else xs[k]? := by
  rcases Nat.lt_trichotomy k xs.length with hlt | rfl | hlt
  · rw [if_neg (Nat.ne_of_gt hlt), List.getElem?_append_left hlt]
  · rw [if_pos rfl, List.getElem?_concat_length]
  · rw [if_neg (Nat.ne_of_lt hlt), List.getElem?_eq_none (Nat.le_of_lt hlt),
      List.getElem?_eq_none (by rw [List.length_append]; exact hlt)]

section Lists

variable [DecidableEq α]

theorem eraseDups_concat (xs : List α) (x : α) :
    (xs ++ [x]).eraseDups = if x ∈ xs then xs.eraseDups else xs.eraseDups ++ [x] := by
  rw [List.eraseDups_append, List.cons_removeAll, List.nil_removeAll]
  by_cases hx : x ∈ xs
  · simp [hx]
  · simp [hx, List.eraseDups_cons]

theorem nodup_eraseDups (xs : List α) : xs.eraseDups.Nodup := by
  induction xs using List.reverseRecOn with
  | nil => exact List.nodup_nil
  | append_singleton xs x ih =>
    rw [eraseDups_concat]
    split
    · exact ih
    · next hx =>
      have hnew : x ∉ xs.eraseDups := by rwa [List.mem_eraseDups]
      rw [List.nodup_append]
      refine ⟨ih, by simp, ?_⟩
      intro a ha b hb hab
      rw [List.mem_singleton] at hb
      rw [hab, hb] at ha
      exact hnew ha

theorem eraseDups_of_nodup (xs : List α) (h : xs.Nodup) : xs.eraseDups = xs := by
  induction xs using List.reverseRecOn with
  | nil => rfl
  | append_singleton xs x ih =>
    obtain ⟨hxs, -, hne⟩ := List.nodup_append.mp h
    have hx : x ∉ xs := fun hx => hne x hx x List.mem_cons_self rfl
    rw [eraseDups_concat, if_neg hx, ih hxs]

theorem eraseDups_filter (p : α → Bool) (xs : List α) :
    (xs.filter p).eraseDups = xs.eraseDups.filter p := by
  induction xs using List.reverseRecOn with
  | nil => rfl
  | append_singleton xs x ih =>
    rw [List.filter_append, eraseDups_concat]
    cases hp : p x with
    | false =>
      rw [List.filter_singleton, hp, cond_false, List.append_nil, ih]
      split
      · rfl
      · simp [hp]
    | true =>
      rw [List.filter_singleton, hp, cond_true, eraseDups_concat, ih]
      by_cases hx : x ∈ xs <;> simp [hx, hp]

/-- What comes later comes up first only if it has not come up before. -/
theorem eraseDups_append_filter (xs ys : List α) :
    (xs ++ ys).eraseDups = xs.eraseDups ++ ys.eraseDups.filter (· ∉ xs) := by
  rw [List.eraseDups_append, ← eraseDups_filter]
  congr 2
  simp [List.removeAll]

/-- What comes up later does not move what has come up. -/
theorem getElem?_eraseDups_append (xs ys : List α) (k : Nat) (x : α)
    (h : xs.eraseDups[k]? = some x) : (xs ++ ys).eraseDups[k]? = some x := by
  have hlt : k < xs.eraseDups.length := (List.getElem?_eq_some_iff.mp h).1
  rw [List.eraseDups_append, List.getElem?_append_left hlt]
  exact h

theorem eraseDups_append_congr (xs xs' ys ys' : List α) (hx : xs.eraseDups = xs'.eraseDups)
    (hy : ys.eraseDups = ys'.eraseDups) : (xs ++ ys).eraseDups = (xs' ++ ys').eraseDups := by
  have hmem (y : α) : y ∈ xs ↔ y ∈ xs' := by
    rw [← List.mem_eraseDups, hx, List.mem_eraseDups]
  simp only [eraseDups_append_filter, hx, hy, hmem]

theorem eraseDups_flatMap_congr (f g : κ → List α) (xs : List κ)
    (h : ∀ x ∈ xs, (f x).eraseDups = (g x).eraseDups) :
    (xs.flatMap f).eraseDups = (xs.flatMap g).eraseDups := by
  induction xs with
  | nil => rfl
  | cons x xs ih =>
    rw [List.flatMap_cons, List.flatMap_cons]
    exact eraseDups_append_congr _ _ _ _ (h x List.mem_cons_self)
      (ih fun x' hx => h x' (List.mem_cons_of_mem x hx))

theorem eraseDups_append_of_subset (xs ys : List α) (h : ∀ y ∈ ys, y ∈ xs) :
    (xs ++ ys).eraseDups = xs.eraseDups := by
  rw [eraseDups_append_filter, List.filter_eq_nil_iff.mpr, List.append_nil]
  intro y hy
  simpa using h y (List.mem_eraseDups.mp hy)

theorem eraseDups_flatMap_const (xs : List κ) (ys : List α) (h : xs ≠ []) :
    (xs.flatMap fun _ => ys).eraseDups = ys.eraseDups := by
  cases xs with
  | nil => exact absurd rfl h
  | cons x xs =>
    rw [List.flatMap_cons]
    apply eraseDups_append_of_subset
    intro y hy
    obtain ⟨-, -, hy⟩ := List.mem_flatMap.mp hy
    exact hy

/-- Repetitions may be dropped before anything is made of the things, since the same is made of
each. -/
theorem eraseDups_flatMap_eraseDups [DecidableEq β] (f : α → List β) (xs : List α) :
    (xs.eraseDups.flatMap f).eraseDups = (xs.flatMap f).eraseDups := by
  induction xs using List.reverseRecOn with
  | nil => rfl
  | append_singleton xs x ih =>
    rw [eraseDups_concat, List.flatMap_append, List.flatMap_singleton]
    split
    · next hx =>
      rw [ih, eraseDups_append_of_subset]
      intro y hy
      exact List.mem_flatMap.mpr ⟨x, hx, hy⟩
    · rw [List.flatMap_append, List.flatMap_singleton]
      exact eraseDups_append_congr _ _ _ _ ih rfl

theorem eraseDups_map_eraseDups [DecidableEq β] (f : α → β) (xs : List α) :
    (xs.eraseDups.map f).eraseDups = (xs.map f).eraseDups := by
  rw [List.map_eq_flatMap, List.map_eq_flatMap]
  exact eraseDups_flatMap_eraseDups (fun x => [f x]) xs

theorem eraseDups_map_of_inj [DecidableEq β] (f : α → β) (xs : List α)
    (hf : ∀ x ∈ xs, ∀ y ∈ xs, f x = f y → x = y) :
    (xs.map f).eraseDups = xs.eraseDups.map f := by
  rw [← eraseDups_map_eraseDups]
  apply eraseDups_of_nodup
  apply (nodup_eraseDups xs).map_on
  intro x hx y hy
  exact hf x (List.mem_eraseDups.mp hx) y (List.mem_eraseDups.mp hy)

end Lists

/-- What is told apart from everything else is found alone. -/
theorem filter_eq_singleton [DecidableEq β] (f : α → β) (xs : List α) (x : α)
    (hx : x ∈ xs) (h : (xs.map f).Nodup) : xs.filter (f · = f x) = [x] := by
  induction xs with
  | nil => cases hx
  | cons y rest ih =>
    obtain ⟨hy, hrest⟩ := List.nodup_cons.mp h
    rcases List.mem_cons.mp hx with rfl | hx
    · have hnone : rest.filter (f · = f x) = [] := by
        rw [List.filter_eq_nil_iff]
        intro z hz heq
        exact hy (List.mem_map.mpr ⟨z, hz, of_decide_eq_true heq⟩)
      rw [List.filter_cons_of_pos (by simp), hnone]
    · have hne : f y ≠ f x := fun heq => hy (heq ▸ List.mem_map_of_mem hx)
      rw [List.filter_cons_of_neg (by simpa using hne), ih hx hrest]

theorem flatMap_ite_eq_filter (p : κ → Bool) (f : κ → List α) (xs : List κ) :
    (xs.flatMap fun x => if p x then f x else []) = (xs.filter p).flatMap f := by
  induction xs with
  | nil => rfl
  | cons x rest ih => cases hp : p x <;> simp [hp, ih]

section Tables

variable [DecidableEq κ]

/-- Joins a value to what a key has, or puts it under the key as the last one. -/
def upsert (key : κ) (value : β) (join : β → β) : List (κ × β) → List (κ × β)
  | [] => [(key, value)]
  | (k, b) :: rest => if k = key then (k, join b) :: rest else (k, b) :: upsert key value join rest

theorem upsert_of_not_mem (key : κ) (value : β) (join : β → β) (entries : List (κ × β))
    (h : ∀ entry ∈ entries, entry.1 ≠ key) :
    upsert key value join entries = entries ++ [(key, value)] := by
  induction entries with
  | nil => rfl
  | cons entry rest ih =>
    rw [List.forall_mem_cons] at h
    rw [upsert, if_neg h.1, ih h.2, List.cons_append]

theorem upsert_map_of_mem (key : κ) (value : β) (join : β → β) (keys : List κ) (f g : κ → β)
    (hkeys : keys.Nodup) (hkey : key ∈ keys) (hjoin : g key = join (f key))
    (hother : ∀ k, k ≠ key → g k = f k) :
    upsert key value join (keys.map fun k => (k, f k)) = keys.map fun k => (k, g k) := by
  induction keys with
  | nil => cases hkey
  | cons k rest ih =>
    obtain ⟨hk, hrest⟩ := List.nodup_cons.mp hkeys
    rw [List.map_cons, List.map_cons, upsert]
    split
    · next heq =>
      -- The key is not found again behind this place.
      subst heq
      rw [hjoin]
      congr 1
      apply List.map_congr_left
      intro k' hk'
      rw [hother k' fun heq => hk (heq ▸ hk')]
    · next hne =>
      have hmem : key ∈ rest := (List.mem_cons.mp hkey).resolve_left fun h => hne h.symm
      rw [ih hrest hmem, hother k hne]

/-- A table of the keys of some things, in the order in which they come up first, becomes that of
the things and one more. -/
theorem upsert_map_eraseDups (key : κ) (value : β) (join : β → β) (keys : List κ) (f g : κ → β)
    (hnew : key ∉ keys → g key = value) (hjoin : key ∈ keys → g key = join (f key))
    (hother : ∀ k, k ≠ key → g k = f k) :
    upsert key value join (keys.eraseDups.map fun k => (k, f k)) =
      (keys ++ [key]).eraseDups.map fun k => (k, g k) := by
  rw [eraseDups_concat]
  split
  · next hkey =>
    exact upsert_map_of_mem key value join _ f g (nodup_eraseDups keys)
      (List.mem_eraseDups.mpr hkey) (hjoin hkey) hother
  · next hkey =>
    have hne (k : κ) (hk : k ∈ keys.eraseDups) : k ≠ key := by
      rintro rfl
      exact hkey (List.mem_eraseDups.mp hk)
    have hold : (keys.eraseDups.map fun k => (k, f k)) = keys.eraseDups.map fun k => (k, g k) :=
      List.map_congr_left fun k hk => by rw [hother k (hne k hk)]
    rw [upsert_of_not_mem, hold, List.map_append, List.map_singleton, hnew hkey]
    intro entry hentry
    obtain ⟨k, hk, rfl⟩ := List.mem_map.mp hentry
    exact hne k hk

end Tables

end QuadGraph
