import QuadGraph.Proofs.FirstSeen
import QuadGraph.Slots

/-! What is in slots: a row of entries with different keys, each found at its place. -/
namespace QuadGraph.Slots

variable {κ α : Type} {cmp : κ → κ → Ordering} [Std.TransCmp cmp]

theorem modify_append_cons (before after : List α) (a : α) (f : α → α) :
    (before ++ a :: after).modify before.length f = before ++ f a :: after := by
  rw [List.modify_eq_take_cons_drop (by simp)]
  simp

/-- The items are those of a row of entries with different keys, and the place of a key is where its
entry stands. -/
structure Holds (slots : Slots κ α cmp) (entries : List (κ × α)) : Prop where
  items : slots.items = entries.map Prod.snd
  nodup : (entries.map Prod.fst).Nodup
  place (key : κ) (i : Nat) :
    slots.place? key = some i ↔ (entries.map Prod.fst)[i]? = some key

theorem holds_empty : (empty : Slots κ α cmp).Holds [] :=
  ⟨rfl, List.nodup_nil, by simp [place?, empty]⟩

variable {slots : Slots κ α cmp} {entries : List (κ × α)} (h : slots.Holds entries)
include h

namespace Holds

theorem exists_of_place (key : κ) (i : Nat) (hi : slots.place? key = some i) :
    ∃ before item after, entries = before ++ (key, item) :: after ∧ before.length = i := by
  have hkey := (h.place key i).mp hi
  rw [List.getElem?_map, Option.map_eq_some_iff] at hkey
  obtain ⟨⟨key', item⟩, hget, rfl⟩ := hkey
  obtain ⟨hlt, hitem⟩ := List.getElem?_eq_some_iff.mp hget
  refine ⟨entries.take i, item, entries.drop (i + 1), ?_, List.length_take_of_le hlt.le⟩
  rw [← hitem, List.getElem_cons_drop, List.take_append_drop]

theorem place_eq_none_iff (key : κ) : slots.place? key = none ↔ key ∉ entries.map Prod.fst := by
  rw [Option.eq_none_iff_forall_ne_some, List.mem_iff_getElem?, not_exists]
  exact forall_congr' fun i => (h.place key i).not

variable [DecidableEq κ]

/-- A change at the place of a key concerns the entry of this key and no other one. -/
theorem change (key : κ) (i : Nat) (f : α → α) (hi : slots.place? key = some i) :
    (slots.change i f).Holds
      (entries.map fun entry => if entry.1 = key then (entry.1, f entry.2) else entry) := by
  obtain ⟨before, item, after, hsplit, rfl⟩ := h.exists_of_place key i hi
  have hsame : (entries.map fun entry => if entry.1 = key then (entry.1, f entry.2) else entry) =
      before ++ (key, f item) :: after := by
    have hnodup := h.nodup
    rw [hsplit, List.map_append, List.map_cons, List.nodup_middle, List.nodup_cons] at hnodup
    have hother (part : List (κ × α)) (hpart : ∀ entry ∈ part, entry ∈ before ++ after) :
        part.map (fun entry => if entry.1 = key then (entry.1, f entry.2) else entry) = part := by
      conv_rhs => rw [← List.map_id part]
      refine List.map_congr_left fun entry hentry => if_neg fun heq => hnodup.1 ?_
      have hmem := List.mem_map_of_mem (f := Prod.fst) (hpart entry hentry)
      rwa [heq, List.map_append] at hmem
    rw [hsplit, List.map_append, List.map_cons, if_pos rfl,
      hother before fun _ => List.mem_append_left after,
      hother after fun _ => List.mem_append_right before]
  have hkeys : (before ++ (key, f item) :: after).map Prod.fst = entries.map Prod.fst := by
    simp [hsplit]
  rw [hsame]
  refine ⟨?_, hkeys ▸ h.nodup, fun key' i => ?_⟩
  · have hlength : (before.map Prod.snd).length = before.length := List.length_map _
    rw [Slots.change, h.items, hsplit, List.map_append, List.map_append, List.map_cons,
      List.map_cons, ← hlength, modify_append_cons]
  · rw [hkeys]
    exact h.place key' i

theorem push [Std.LawfulEqCmp cmp] (key : κ) (item : α) (hnew : key ∉ entries.map Prod.fst) :
    (slots.push key item).Holds (entries ++ [(key, item)]) := by
  refine ⟨?_, ?_, fun key' i => ?_⟩
  · rw [Slots.push, h.items, List.map_append]
    rfl
  · rw [List.map_append, List.nodup_append]
    refine ⟨h.nodup, List.nodup_singleton key, fun a ha b hb => ?_⟩
    rintro rfl
    obtain rfl : a = key := List.mem_singleton.mp hb
    exact hnew ha
  · have hlength : slots.items.length = (entries.map Prod.fst).length := by simp [h.items]
    have hplace : (slots.push key item).place? key' =
        if key = key' then some slots.items.length else slots.place? key' := by
      simp only [place?, Slots.push, Std.ExtTreeMap.getElem?_insert,
        Std.LawfulEqCmp.compare_eq_iff_eq]
    rw [hplace, List.map_append, List.map_singleton, getElem?_concat, ← hlength]
    by_cases hkey : key = key'
    · subst hkey
      -- The key stands nowhere else.
      have hother : (entries.map Prod.fst)[i]? ≠ some key := fun h => hnew (List.mem_of_getElem? h)
      rw [if_pos rfl, Option.some.injEq]
      split <;> simp_all
    · rw [if_neg hkey, h.place]
      split
      · next hi =>
        rw [List.getElem?_eq_none (hi ▸ hlength.ge)]
        simp [hkey]
      · rfl

end Holds

end QuadGraph.Slots
