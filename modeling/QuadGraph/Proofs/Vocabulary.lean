import Mathlib.Data.List.Basic
import Mathlib.Tactic.SplitIfs
import QuadGraph.Vocabulary

/-! How names are expanded, and when expanding them once more changes nothing. -/
namespace QuadGraph.Vocabulary

theorem rest?_eq_some (start name r : String) : rest? start name = some r ↔ start ++ r = name := by
  rw [rest?, Option.map_eq_some_iff]
  constructor
  · rintro ⟨rest, hrest, rfl⟩
    rw [List.isPrefixOf?_eq_some_iff_append_eq] at hrest
    apply String.toList_injective
    simp [hrest]
  · intro h
    refine ⟨r.toList, ?_, String.ofList_toList⟩
    rw [List.isPrefixOf?_eq_some_iff_append_eq, ← String.toList_append, h]

/-- A name without a rule has a registered start, or it stands for itself. -/
theorem fullIri_cases (v : Vocabulary) (name : String) (h : v.rules[name]? = none) :
    (∃ short full r, v.prefixes[short]? = some full ∧ short ++ r = name ∧
      v.fullIri name = full ++ r) ∨
    v.fullIri name = name := by
  simp only [fullIri, h]
  cases hfind : List.findSome? _ v.prefixes.toList with
  | none => exact Or.inr rfl
  | some expanded =>
    obtain ⟨⟨short, full⟩, hmem, hsome⟩ := List.exists_of_findSome?_eq_some hfind
    obtain ⟨r, hr, rfl⟩ := Option.map_eq_some_iff.mp hsome
    exact Or.inl ⟨short, full, r, Std.ExtTreeMap.mem_toList_iff_getElem?_eq_some.mp hmem,
      (rest?_eq_some short name r).mp hr, rfl⟩

theorem fullIri_eq_self (v : Vocabulary) (name : String) (h : v.rules[name]? = none)
    (hstart : ∀ short full r, v.prefixes[short]? = some full → short ++ r ≠ name) :
    v.fullIri name = name := by
  rcases v.fullIri_cases name h with ⟨short, full, r, hshort, hname, -⟩ | hself
  · exact absurd hname (hstart short full r hshort)
  · exact hself

/-- Names that are expanded twice are expanded once. -/
def Idempotent (v : Vocabulary) : Prop :=
  ∀ name, v.fullIri (v.fullIri name) = v.fullIri name

/-- Without rules, and if nothing that a start stands for begins with a start, it is enough to
expand once. -/
theorem idempotent_of_apart (v : Vocabulary) (hrules : ∀ name : String, v.rules[name]? = none)
    (hapart : ∀ short full short' full' r r' : String, v.prefixes[short]? = some full →
      v.prefixes[short']? = some full' → short' ++ r' ≠ full ++ r) : v.Idempotent := by
  intro name
  rcases v.fullIri_cases name (hrules name) with ⟨short, full, r, hshort, -, hfull⟩ | hself
  · rw [hfull]
    exact v.fullIri_eq_self _ (hrules _) fun short' full' r' hshort' =>
      hapart short full short' full' r r' hshort hshort'
  · rw [hself, hself]

/-- What the standard starts stand for begins with the letter `h`, and no start does. -/
theorem idempotent_standard : standard.Idempotent := by
  have hprefixes (short full : String) (h : standard.prefixes[short]? = some full) :
      (∃ rest, full.toList = 'h' :: rest) ∧ ∃ c rest, short.toList = c :: rest ∧ c ≠ 'h' := by
    simp only [standard, addPrefix, empty, Std.ExtTreeMap.getElem?_insert,
      Std.compare_eq_iff_eq] at h
    split_ifs at h with hxsd hrdfs hrdf hschema
    · cases h
      exact ⟨⟨_, rfl⟩, 'x', _, by rw [← hxsd]; rfl, by decide⟩
    · cases h
      exact ⟨⟨_, rfl⟩, 'r', _, by rw [← hrdfs]; rfl, by decide⟩
    · cases h
      exact ⟨⟨_, rfl⟩, 'r', _, by rw [← hrdf]; rfl, by decide⟩
    · cases h
      exact ⟨⟨_, rfl⟩, 's', _, by rw [← hschema]; rfl, by decide⟩
    · simp at h
  refine standard.idempotent_of_apart ?_ ?_
  · intro name
    simp [standard, addPrefix, empty]
  · intro short full short' full' r r' hfull hshort' heq
    obtain ⟨⟨rest, hrest⟩, -⟩ := hprefixes short full hfull
    obtain ⟨-, c, rest', hrest', hc⟩ := hprefixes short' full' hshort'
    have hlists := congrArg String.toList heq
    rw [String.toList_append, String.toList_append, hrest, hrest'] at hlists
    exact hc (List.cons.inj hlists).1

end QuadGraph.Vocabulary
