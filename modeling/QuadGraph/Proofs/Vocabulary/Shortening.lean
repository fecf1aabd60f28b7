import Mathlib.Data.List.TakeWhile
import QuadGraph.JsonLd
import QuadGraph.Proofs.Vocabulary.Starts

/-! Starts that end with their only colon. A name has one of these at most, so a short name is
expanded by the start that it was made with. The standard vocabulary has no others. -/
namespace QuadGraph.Vocabulary

/-- The start of an IRI is put in place of what stands for it, or the IRI stays as it is. -/
theorem shortIri_cases (v : Vocabulary) (iri : String) :
    (∃ short full r, v.prefixes[short]? = some full ∧ full ++ r = iri ∧
      v.shortIri iri = short ++ r) ∨
    v.shortIri iri = iri := by
  rcases v.shortIri_spec iri with ⟨short, full, r, hmatch, heq⟩ | ⟨-, hself⟩
  · exact Or.inl ⟨short, full, r, hmatch.registered, hmatch.append, heq⟩
  · exact Or.inr hself

/-- A start of names that ends with its only colon. -/
def IsStart (short : String) : Prop :=
  ∃ word : String, ':' ∉ word.toList ∧ short = word ++ ":"

/-- A name has one start at most that ends with its only colon. -/
theorem IsStart.unique (a b r r' : String) (ha : IsStart a) (hb : IsStart b)
    (h : a ++ r = b ++ r') : a = b ∧ r = r' := by
  obtain ⟨x, hx, rfl⟩ := ha
  obtain ⟨y, hy, rfl⟩ := hb
  -- A start is what a name has up to its first colon.
  have hbefore (word rest : String) (hword : ':' ∉ word.toList) :
      (word ++ ":" ++ rest).toList.takeWhile (· ≠ ':') = word.toList := by
    have hall : ∀ c ∈ word.toList, decide (c ≠ ':') = true := by
      intro c hc
      exact decide_eq_true fun heq => hword (heq ▸ hc)
    rw [String.toList_append, String.toList_append, List.append_assoc,
      List.takeWhile_append_of_pos hall]
    simp
  have hwords : x = y := by
    apply String.toList_injective
    rw [← hbefore x r hx, ← hbefore y r' hy, h]
  subst hwords
  exact ⟨rfl, by simpa using h⟩

/-- All starts end with their only colon. -/
def Separated (v : Vocabulary) : Prop :=
  ∀ short full, v.prefixes[short]? = some full → IsStart short

theorem Separated.independent (v : Vocabulary) (hv : v.Separated) : v.Independent := by
  intro short full other full' r hshort hother happend
  exact (IsStart.unique other short r "" (hv _ _ hother) (hv _ _ hshort) (by simpa using happend)).1

theorem fullIri_append (v : Vocabulary) (hv : v.Separated) (short full r : String)
    (h : v.prefixes[short]? = some full) (hrule : v.rules[short ++ r]? = none) :
    v.fullIri (short ++ r) = full ++ r :=
  fullIri_append_of_undisturbed (undisturbed_of_independent (Separated.independent v hv) h) hrule

/-- Without rules, shortening an IRI that stands for itself can be undone. -/
theorem fullIri_shortIri (v : Vocabulary) (hv : v.Separated)
    (hrules : ∀ name : String, v.rules[name]? = none) (iri : String) (hself : v.fullIri iri = iri) :
    v.fullIri (v.shortIri iri) = iri := by
  rcases v.shortIri_cases iri with ⟨short, full, r, hshort, hfull, heq⟩ | heq
  · rw [heq, v.fullIri_append hv short full r hshort (hrules _), hfull]
  · rw [heq, hself]

theorem mem_prefixes_standard (short full : String) (h : standard.prefixes[short]? = some full) :
    (short, full) ∈ [("rdf:", Iri.rdf), ("rdfs:", Iri.rdfs), ("schema:", Iri.schema),
      ("xsd:", Iri.xsd)] := by
  have hlist : standard.prefixes.toList = [("rdf:", Iri.rdf), ("rdfs:", Iri.rdfs),
      ("schema:", Iri.schema), ("xsd:", Iri.xsd)] := by decide +kernel
  rw [← hlist]
  exact Std.ExtTreeMap.mem_toList_iff_getElem?_eq_some.mpr h

theorem separated_standard : standard.Separated := by
  intro short full h
  have hmem := List.mem_map_of_mem (mem_prefixes_standard short full h) (f := Prod.fst)
  simp only [List.map_cons, List.map_nil, List.mem_cons, List.not_mem_nil, or_false] at hmem
  rcases hmem with rfl | rfl | rfl | rfl
  · exact ⟨"rdf", by decide, rfl⟩
  · exact ⟨"rdfs", by decide, rfl⟩
  · exact ⟨"schema", by decide, rfl⟩
  · exact ⟨"xsd", by decide, rfl⟩

theorem rules_standard (name : String) : standard.rules[name]? = none := by
  simp [standard, addPrefix, empty]

end QuadGraph.Vocabulary
