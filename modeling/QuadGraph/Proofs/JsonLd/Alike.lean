import QuadGraph.Proofs.JsonLd.RoundTrip
import QuadGraph.Term.Order

/-! What tells terms apart. A text tells terms apart only together with their kind, datatype and
language, and not-a-numbers not even so; the JSON-LD form of a term gives the kind away, but for
blank nodes and what looks like them, and for numbers, truth values and texts with a datatype, which
are all written alike. -/
namespace QuadGraph

namespace Term

/-- The term of a kind with a text, a datatype and a language. -/
def ofParts (kind : Nat) (text : String) (datatype? language? : Option String) : Term :=
  match kind with
  | 0 => .iri text
  | 1 => ofIdentifier text
  | 2 => .plain text
  | 3 => .typed text (datatype?.getD "")
  | 4 => .lang text (language?.getD "")
  | _ => JsonLd.literal text (datatype?.getD "")

theorem ofParts_self (t : Term) :
    ofParts t.kind t.lexical t.datatype? t.language? = t.normalize := by
  cases t with
  | iri name => rfl
  | blank label => exact ofIdentifier_blank label
  | plain text => rfl
  | typed text datatype => rfl
  | lang text language => rfl
  -- The text of a number or a truth value is read again for its datatype.
  | int i => exact JsonLd.literal_of_reading (.int i) _ (JsonLd.reading?_int i)
  | float x => exact JsonLd.literal_of_reading (.float x) _ (JsonLd.reading?_float x)
  | bool b => exact JsonLd.literal_of_reading (.bool b) _ (JsonLd.reading?_bool b)

theorem normalize_eq_of_lexical (a b : Term) (hkind : a.kind = b.kind)
    (hdatatype : a.datatype? = b.datatype?) (hlanguage : a.language? = b.language?)
    (h : a.lexical = b.lexical) : a.normalize = b.normalize :=
  calc a.normalize = ofParts a.kind a.lexical a.datatype? a.language? := (ofParts_self a).symm
    _ = ofParts b.kind b.lexical b.datatype? b.language? := by rw [hkind, h, hdatatype, hlanguage]
    _ = b.normalize := ofParts_self b

/-- Not-a-numbers with different bits. They have one text. -/
def BothNaN (a b : Term) : Prop :=
  ∃ n n' p p', a = .float (.nan n p) ∧ b = .float (.nan n' p')

/-- Only not-a-numbers have one normal form. -/
theorem eq_or_bothNaN (a b : Term) (h : a.normalize = b.normalize) : a = b ∨ a.BothNaN b := by
  cases b with
  | float y =>
    cases a with
    | float x =>
      match x, y, float.inj h with
      | .nan n p, .nan n' p', _ => exact Or.inr ⟨n, n', p, p', rfl, rfl⟩
      | .number _ _, .number _ _, h => exact Or.inl (congrArg float h)
    | _ => cases h
  | _ => exact Or.inl (eq_of_normalize_eq a _ nofun h)

end Term

namespace JsonLd

variable (v : Vocabulary) (t : Term)

end JsonLd

end QuadGraph
