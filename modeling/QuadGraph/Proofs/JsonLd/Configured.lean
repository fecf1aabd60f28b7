import QuadGraph.Proofs.JsonLd.RoundTrip
import QuadGraph.Settings

/-! Whether integers and truth values come back under given settings. Their datatypes are shortened
by the standard vocabulary where the settings do not help, but only the settings expand them, so
they come back if both use the same start. -/
namespace QuadGraph

namespace Settings

open Vocabulary

/-- A start has the meaning that the settings give it, or else the standard one if that is used. -/
theorem prefixes_vocabulary (s : Settings) (short : String) :
    s.vocabulary.prefixes[short]? =
      s.prefixes[short]?.or (if s.useDefaultPrefixes then standard.prefixes[short]? else none) := by
  cases hs : s.useDefaultPrefixes with
  | false => simp [vocabulary, hs, Vocabulary.empty, Std.ExtTreeMap.getElem?_union]
  | true => simp [vocabulary, hs, Std.ExtTreeMap.getElem?_union]

theorem rules_vocabulary (s : Settings) (name : String) :
    s.vocabulary.rules[name]? = s.rules[name]? := by
  have hstandard := rules_standard name
  cases hs : s.useDefaultPrefixes with
  | false => simp [vocabulary, hs, Vocabulary.empty, Std.ExtTreeMap.getElem?_union]
  | true => simp [vocabulary, hs, Std.ExtTreeMap.getElem?_union, hstandard]

theorem separated_vocabulary (s : Settings) (h : ∀ short ∈ s.prefixes, IsStart short) :
    s.vocabulary.Separated := by
  intro short full hshort
  rw [prefixes_vocabulary, Option.or_eq_some_iff] at hshort
  rcases hshort with hown | ⟨-, hbase⟩
  · exact h short (Std.ExtTreeMap.mem_iff_isSome_getElem?.mpr (by rw [hown]; rfl))
  · split at hbase
    · exact separated_standard short full hbase
    · cases hbase

end Settings

namespace JsonLd

open Vocabulary

/-- Integers and truth values, with their datatypes. -/
inductive Discrete : Term → String → Prop
  | int (value : Int64) : Discrete (.int value) Iri.integer
  | bool (value : Bool) : Discrete (.bool value) Iri.boolean

theorem survives_of_discrete (v : Vocabulary) (t : Term) (datatype : String)
    (h : Discrete t datatype) :
    Survives v t ↔ v.fullIri (shortDatatype v datatype) = datatype := by
  cases h <;> rfl

/-- The standard vocabulary shortens a datatype of this kind by the same start always. -/
theorem shortIri_of_discrete (t : Term) (datatype : String) (h : Discrete t datatype) :
    ∃ name, standard.shortIri datatype = "schema:" ++ name ∧ Iri.schema ++ name = datatype ∧
      "schema:" ++ name ≠ datatype := by
  cases h with
  | int => exact ⟨"Integer", by decide +kernel, rfl, by decide⟩
  | bool => exact ⟨"Boolean", by decide +kernel, rfl, by decide⟩

/-- Where starts end with their only colon and no rule takes the short name away, the datatype is
expanded again if it has been shortened by a start of the vocabulary, or if the vocabulary knows the
start that the standard one uses. -/
theorem fullIri_shortDatatype_iff (v : Vocabulary) (hv : v.Separated) (t : Term)
    (datatype : String) (ht : Discrete t datatype)
    (hrule : v.rules[shortDatatype v datatype]? = none) :
    v.fullIri (shortDatatype v datatype) = datatype ↔
      v.shortIri datatype ≠ datatype ∨ v.prefixes["schema:"]? = some Iri.schema := by
  obtain ⟨name, hstandard, hfull, hne⟩ := shortIri_of_discrete t datatype ht
  by_cases hself : v.shortIri datatype = datatype
  -- The vocabulary has no start for the datatype, so the standard one has shortened it.
  · have hshort : shortDatatype v datatype = "schema:" ++ name := by
      rw [shortDatatype, hself, if_neg (by simp), hstandard]
    rw [hshort] at hrule ⊢
    constructor
    · intro h
      rcases v.fullIri_cases _ hrule with ⟨short, full, r, hknown, hname, heq⟩ | heq
      · -- No other start than this one begins the short name.
        obtain ⟨rfl, rfl⟩ := IsStart.unique short "schema:" r name (hv _ _ hknown)
          ⟨"schema", by decide, rfl⟩ hname
        right
        have hstart : full ++ r = Iri.schema ++ r := by rw [← heq, h, hfull]
        rw [hknown, (String.append_left_inj r).mp hstart]
      · exact absurd (heq.symm.trans h) hne
    · rintro (h | h)
      · exact absurd hself h
      · rw [v.fullIri_append hv "schema:" Iri.schema name h hrule, hfull]
  -- The vocabulary has shortened the datatype by a start that it expands again.
  · have hshort : shortDatatype v datatype = v.shortIri datatype := by
      rw [shortDatatype, if_pos hself]
    rw [hshort] at hrule ⊢
    refine iff_of_true ?_ (Or.inl hself)
    rcases v.shortIri_cases datatype with ⟨short, full, r, hknown, hiri, heq⟩ | heq
    · rw [heq] at hrule ⊢
      rw [v.fullIri_append hv short full r hknown hrule, hiri]
    · exact absurd heq hself

end JsonLd

namespace Settings

open JsonLd Vocabulary

/-- An integer or a truth value comes back under the vocabulary of some settings exactly if the
short name of its datatype stands for the datatype. If starts end with their only colon and no rule
takes the short name away, it does so exactly if a start of the vocabulary shortens the datatype or
the standard start of the name is known; and so it does if the settings use the standard vocabulary
and do not give that start another meaning. -/
theorem decode_encode_configured (s : Settings) (t : Term) (datatype : String)
    (ht : Discrete t datatype) :
    let v := s.vocabulary
    let comesBack : Prop := decode v (encode v t).toJson = .ok t
    (comesBack ↔ v.fullIri (shortDatatype v datatype) = datatype) ∧
    ((∀ short ∈ s.prefixes, IsStart short) → s.rules[shortDatatype v datatype]? = none →
      (comesBack ↔
        v.shortIri datatype ≠ datatype ∨ v.prefixes["schema:"]? = some Iri.schema) ∧
      (s.useDefaultPrefixes = true → "schema:" ∉ s.prefixes → comesBack)) := by
  intro v comesBack
  have hback : comesBack ↔ v.fullIri (shortDatatype v datatype) = datatype := by
    have hself : t.normalize = t := by cases ht <;> rfl
    rw [← survives_of_discrete v t datatype ht, ← and_iff_left (a := Survives v t) hself,
      ← reread_eq_iff]
    simp only [comesBack, decode_encode, Except.ok.injEq]
  refine ⟨hback, fun hstarts hrule => ?_⟩
  have hexact : comesBack ↔
      v.shortIri datatype ≠ datatype ∨ v.prefixes["schema:"]? = some Iri.schema :=
    hback.trans (fullIri_shortDatatype_iff v (s.separated_vocabulary hstarts) t datatype ht
      ((s.rules_vocabulary _).trans hrule))
  refine ⟨hexact, fun hdefault hown => hexact.mpr (Or.inr ?_)⟩
  have hstandard : standard.prefixes["schema:"]? = some Iri.schema := by decide +kernel
  rw [s.prefixes_vocabulary, hdefault, Std.ExtTreeMap.getElem?_eq_none hown, Option.none_or,
    if_pos rfl, hstandard]

/-- A number comes back under a start and a rule that have nothing to do with it. -/
theorem decode_encode_configured_example :
    let s : Settings := ⟨true, Std.ExtTreeMap.ofList [("ex:", "http://example.org/")],
      Std.ExtTreeMap.ofList [("likes", "http://example.org/likes")]⟩
    decode s.vocabulary (encode s.vocabulary (.int 4)).toJson = .ok (.int 4) := by
  intro s
  have hstarts : ∀ short ∈ s.prefixes, IsStart short := by
    intro short hshort
    have hkeys : s.prefixes.keys = ["ex:"] := by decide +kernel
    have hmem := Std.ExtTreeMap.mem_keys.mpr hshort
    rw [hkeys, List.mem_singleton] at hmem
    exact ⟨"ex", by decide, hmem⟩
  have hrule : s.rules[shortDatatype s.vocabulary Iri.integer]? = none := by decide +kernel
  have hown : "schema:" ∉ s.prefixes := by decide +kernel
  exact ((decode_encode_configured s (.int 4) Iri.integer (.int 4)).2 hstarts hrule).2 rfl hown

/-- Where no start of a name is known, a number is printed with a short name that nothing expands,
and it comes back as a typed text. -/
theorem decode_encode_without_starts :
    let v := (Settings.mk false ∅ ∅).vocabulary
    encode v (.int 4) = .typed "4" "schema:Integer" ∧
      decode v (encode v (.int 4)).toJson = .ok (.typed "4" "schema:Integer") ∧
      decode v (encode v (.int 4)).toJson ≠ .ok (.int 4) := by
  intro v
  have hencode : encode v (.int 4) = .typed "4" "schema:Integer" := by decide +kernel
  have hdecode : decode v (encode v (.int 4)).toJson = .ok (.typed "4" "schema:Integer") := by
    rw [hencode]
    with_unfolding_all rfl
  refine ⟨hencode, hdecode, ?_⟩
  rw [hdecode]
  nofun

end Settings

end QuadGraph
