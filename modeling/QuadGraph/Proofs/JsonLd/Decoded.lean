import QuadGraph.JsonLd

/-! Which terms JSON values are decoded to. However deep a value is nested, its term is that of an
identifier, of a scalar, or of a text with a language or a datatype. -/
namespace QuadGraph

theorem Term.ofIdentifier_blank (label : String) : ofIdentifier ("_:" ++ label) = .blank label := by
  have hlist : ("_:" ++ label).toList = '_' :: ':' :: label.toList := String.toList_append
  rw [ofIdentifier, hlist]
  simp only [String.ofList_toList]

theorem Term.ofIdentifier_iri (name : String) (h : ∀ label, name ≠ "_:" ++ label) :
    ofIdentifier name = .iri name := by
  unfold ofIdentifier
  split
  · next label hlabel =>
    apply absurd _ (h (String.ofList label))
    apply String.toList_injective
    rw [hlabel, String.toList_append, String.toList_ofList, String.toList_ofList]
    rfl
  · rfl

namespace JsonLd

variable {v : Vocabulary}

/-- A term to which some JSON value is decoded under a vocabulary. -/
inductive Decoded (v : Vocabulary) : Term → Prop
  | identifier (id : String) : Decoded v (v.expand (Term.ofIdentifier id))
  | plain (text : String) : Decoded v (.plain text)
  | bool (value : Bool) : Decoded v (.bool value)
  | number (n : JsonNumber) : Decoded v (number n)
  | lang (text language : String) : Decoded v (.lang text language)
  | literal (text type : String) : Decoded v (literal text (v.fullIri type))

mutual

theorem decoded_of_decode (json : Json) (t : Term) (h : decode v json = .ok t) : Decoded v t := by
  cases json with
  | null => cases h
  | bool value =>
    cases h
    exact .bool value
  | number n =>
    cases h
    exact .number n
  | string text =>
    cases h
    exact .plain text
  | array items => cases h
  | object members =>
    rw [decode] at h
    split at h
    · cases h
      exact .identifier _
    · cases h
    · split at h
      · cases h
      · split at h
        · cases h
          exact .lang _ _
        · cases h
        · split at h
          · cases h
            exact .literal _ _
          -- Without a language and a datatype, the value stands for itself.
          · exact decoded_of_decodeValue members t h

theorem decoded_of_decodeValue (members : List (String × Json)) (t : Term)
    (h : decodeValue v members = .ok t) : Decoded v t := by
  cases members with
  | nil => cases h
  | cons member rest =>
    obtain ⟨key, value⟩ := member
    rw [decodeValue] at h
    split at h
    · exact decoded_of_decode value t h
    · exact decoded_of_decodeValue rest t h

end

end JsonLd

end QuadGraph
