import QuadGraph.Proofs.JsonLd.RoundTrip

/-! Decoding normalizes: under the standard vocabulary a decoded term has a form that is decoded to
it again. Its names are expanded already, what they are shortened to is expanded to them, and what
could be read of a text has been read. -/
namespace QuadGraph

/-- No number that is written in JSON is a not-a-number. -/
theorem JsonNumber.normalize_double (n : JsonNumber) : n.double.normalize = n.double := by
  cases n <;> rfl

namespace JsonLd

open Vocabulary

theorem fullIri_shortDatatype (datatype : String)
    (h : standard.fullIri datatype = datatype) :
    standard.fullIri (shortDatatype standard datatype) = datatype := by
  have hshort : shortDatatype standard datatype = standard.shortIri datatype := by
    unfold shortDatatype
    simp only
    split <;> rfl
  rw [hshort]
  exact standard.fullIri_shortIri separated_standard rules_standard datatype h

/-- The datatypes of numbers and truth values are full already, so these come back. -/
theorem survives_of_datatype (t : Term) (text datatype : String)
    (h : reading? text datatype = some t) : Survives standard t := by
  unfold reading? at h
  split_ifs at h
  · obtain ⟨i, -, rfl⟩ := Option.map_eq_some_iff.mp h
    exact fullIri_shortDatatype Iri.integer (by decide +kernel)
  · obtain ⟨x, -, rfl⟩ := Option.map_eq_some_iff.mp h
    exact fullIri_shortDatatype Iri.float (by decide +kernel)
  · obtain ⟨b, -, rfl⟩ := Option.map_eq_some_iff.mp h
    exact fullIri_shortDatatype Iri.boolean (by decide +kernel)

theorem survives_literal (text type : String) :
    Survives standard (literal text (standard.fullIri type)) := by
  rw [literal_eq_reading]
  cases h : reading? text (standard.fullIri type) with
  | none =>
    have hfull := fullIri_shortDatatype _ (idempotent_standard type)
    rw [Option.getD_none, Survives, ← isSome_reading?, h]
    exact ⟨hfull, Bool.false_ne_true⟩
  | some t => exact survives_of_datatype t text _ h

/-- No standard start stands for something that looks like a blank node. -/
theorem fullIri_ne_blank (name : String) (h : ∀ label, name ≠ "_:" ++ label) (label : String) :
    standard.fullIri name ≠ "_:" ++ label := by
  have hcases := standard.fullIri_cases name (rules_standard name)
  rcases hcases with ⟨short, full, r, hshort, -, hfull⟩ | hself
  · have hmem := List.mem_map_of_mem (mem_prefixes_standard short full hshort) (f := Prod.snd)
    have hhttp : full.toList.head? = some 'h' := by
      simp only [List.map_cons, List.map_nil, List.mem_cons, List.not_mem_nil, or_false] at hmem
      rcases hmem with rfl | rfl | rfl | rfl <;> decide
    rw [hfull]
    intro heq
    have hlist := congrArg (fun s : String => s.toList.head?) heq
    simp [String.toList_append, hhttp] at hlist
  · rw [hself]
    exact h label

theorem survives_ofIdentifier (id : String) :
    Survives standard (standard.expand (Term.ofIdentifier id)) := by
  by_cases h : ∃ label, id = "_:" ++ label
  · obtain ⟨label, rfl⟩ := h
    rw [Term.ofIdentifier_blank]
    exact trivial
  · have hid : ∀ label, id ≠ "_:" ++ label := fun label heq => h ⟨label, heq⟩
    rw [Term.ofIdentifier_iri id hid]
    exact ⟨fullIri_ne_blank id hid, idempotent_standard id⟩

theorem survives_of_decoded (t : Term) (h : Decoded standard t) : Survives standard t := by
  cases h with
  | identifier id => exact survives_ofIdentifier id
  | plain text => exact trivial
  | bool value => exact survives_of_datatype _ _ _ (reading?_bool value)
  | number n =>
    unfold number
    split
    · next i _ => exact survives_of_datatype _ _ _ (reading?_int i)
    · exact survives_of_datatype _ _ _ (n.normalize_double ▸ reading?_float n.double)
  | lang text language => exact trivial
  | literal text type => exact survives_literal text type

theorem normalize_literal (text datatype : String) :
    (literal text datatype).normalize = literal text datatype ∨
      literal text datatype = .float (.nan true .quiet) := by
  rw [literal_eq_reading]
  cases h : reading? text datatype with
  | none => exact Or.inl rfl
  | some t =>
    unfold reading? at h
    split_ifs at h
    · obtain ⟨i, -, rfl⟩ := Option.map_eq_some_iff.mp h
      exact Or.inl rfl
    · obtain ⟨x, hx, rfl⟩ := Option.map_eq_some_iff.mp h
      rcases Double.normalize_of_ofText? text x hx with rfl | hself
      · exact Or.inr rfl
      · exact Or.inl (congrArg Term.float hself)
    · obtain ⟨b, -, rfl⟩ := Option.map_eq_some_iff.mp h
      exact Or.inl rfl

theorem normalize_of_decoded (t : Term) (h : Decoded standard t) :
    t.normalize = t ∨ t = .float (.nan true .quiet) := by
  cases h with
  | identifier id =>
    left
    unfold Term.ofIdentifier
    split <;> rfl
  | plain text => exact Or.inl rfl
  | bool value => exact Or.inl rfl
  | number n =>
    left
    unfold number
    split
    · rfl
    · exact congrArg Term.float n.normalize_double
  | lang text language => exact Or.inl rfl
  | literal text type => exact normalize_literal text _

/-- Whatever JSON value a term is decoded from, its own form is decoded to it again; the negative
not-a-number, which only a text can stand for, comes back as the positive one. -/
theorem decode_encode_of_decode (json : Json) (t : Term) (h : decode standard json = .ok t) :
    decode standard (encode standard t).toJson = .ok t.normalize ∧
      (t.normalize = t ∨ t = .float (.nan true .quiet)) := by
  have hdecoded := decoded_of_decode json t h
  refine ⟨?_, normalize_of_decoded t hdecoded⟩
  rw [decode_encode, reread_of_survives standard t (survives_of_decoded t hdecoded)]

/-- A value in a value, with a datatype that its text cannot be read as, comes back flat. -/
theorem decode_encode_of_decode_nested :
    let inner : Json := .object [("@type", .string "schema:Integer"), ("@value", .string "five")]
    let t : Term := .typed "five" Iri.integer
    decode standard (.object [("@value", inner)]) = .ok t ∧
      decode standard (encode standard t).toJson = .ok t := by
  intro inner t
  have h : decode standard (.object [("@value", inner)]) = .ok t := by with_unfolding_all rfl
  exact ⟨h, (decode_encode_of_decode _ t h).1⟩

end JsonLd

end QuadGraph
