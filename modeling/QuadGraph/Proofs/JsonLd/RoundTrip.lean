import QuadGraph.Proofs.JsonLd.Decoded
import QuadGraph.Proofs.Number.ReadBack
import QuadGraph.Proofs.Vocabulary.Shortening

/-! Which terms come back from their JSON-LD form. A literal comes back if the short name of its
datatype stands for the datatype again, unless it is a text that is read as something else; a
reference comes back if its name stands for itself. Under the standard vocabulary, whatever has been
decoded comes back. All not-a-numbers have one text, so of these only the one that the text stands
for comes back with its bits. -/
namespace QuadGraph

namespace Term

/-- The term itself, or for all not-a-numbers the one that their text stands for. -/
def normalize : Term → Term
  | .float x => .float x.normalize
  | t => t

theorem normalize_normalize (t : Term) : t.normalize.normalize = t.normalize := by
  cases t with
  | float x => cases x <;> rfl
  | _ => rfl

theorem datatype?_normalize (t : Term) : t.normalize.datatype? = t.datatype? := by
  cases t <;> rfl

/-- Only of a float can another term be the normal form. -/
theorem eq_of_normalize_eq (s t : Term) (ht : ∀ x, t ≠ .float x) (h : s.normalize = t) :
    s = t := by
  cases s with
  | float x => exact absurd h.symm (ht x.normalize)
  | _ => exact h

end Term

namespace JsonLd

/-- What the text of a literal is read as for its datatype, if it can be read so. -/
def reading? (text datatype : String) : Option Term :=
  if datatype = Iri.integer then (int64? text).map .int
  else if datatype = Iri.float then (Double.ofText? text).map .float
  else if datatype = Iri.boolean then (bool? text).map .bool
  else none

theorem literal_eq_reading (text datatype : String) :
    literal text datatype = (reading? text datatype).getD (.typed text datatype) :=
  rfl

theorem isSome_reading? (text datatype : String) :
    (reading? text datatype).isSome ↔
      (datatype = Iri.integer ∧ (int64? text).isSome) ∨
      (datatype = Iri.float ∧ (Double.ofText? text).isSome) ∨
      (datatype = Iri.boolean ∧ (bool? text).isSome) := by
  have hfloat : Iri.float ≠ Iri.integer := by decide
  have hinteger : Iri.boolean ≠ Iri.integer := by decide
  have hboolean : Iri.boolean ≠ Iri.float := by decide
  unfold reading?
  split_ifs with hd hd' hd''
  · simp [hd, hfloat.symm, hinteger.symm]
  · simp [hd', hfloat, hboolean.symm]
  · simp [hd'', hinteger, hboolean]
  · simp [hd, hd', hd'']

theorem datatype_of_reading? (text datatype : String) (t : Term)
    (h : reading? text datatype = some t) :
    t.datatype? = some datatype ∧ t ≠ .typed text datatype := by
  unfold reading? at h
  split_ifs at h with hd hd hd
  · obtain ⟨i, -, rfl⟩ := Option.map_eq_some_iff.mp h
    exact ⟨congrArg some hd.symm, nofun⟩
  · obtain ⟨x, -, rfl⟩ := Option.map_eq_some_iff.mp h
    exact ⟨congrArg some hd.symm, nofun⟩
  · obtain ⟨b, -, rfl⟩ := Option.map_eq_some_iff.mp h
    exact ⟨congrArg some hd.symm, nofun⟩

/-- A literal keeps the datatype that it is given. -/
theorem datatype_literal (text datatype : String) :
    (literal text datatype).datatype? = some datatype := by
  rw [literal_eq_reading]
  cases h : reading? text datatype with
  | none => rfl
  | some t => exact (datatype_of_reading? text datatype t h).1

theorem literal_eq_typed_iff (text datatype datatype' : String) :
    literal text datatype' = .typed text datatype ↔
      datatype' = datatype ∧ ¬ (reading? text datatype).isSome := by
  constructor
  · intro h
    -- What is read keeps the datatype, so it tells which one was given.
    have hdatatype := datatype_literal text datatype'
    rw [h] at hdatatype
    obtain rfl : datatype = datatype' := Option.some.inj hdatatype
    refine ⟨rfl, ?_⟩
    rw [Option.isSome_iff_exists]
    rintro ⟨t, ht⟩
    rw [literal_eq_reading, ht, Option.getD_some] at h
    exact (datatype_of_reading? text datatype t ht).2 h
  · rintro ⟨rfl, hnone⟩
    rw [literal_eq_reading, Option.not_isSome_iff_eq_none.mp hnone, Option.getD_none]

/-- A number or a truth value is read from its text under its datatype. -/
theorem literal_of_reading (t : Term) (datatype : String)
    (hread : reading? t.lexical datatype = some t.normalize) :
    literal t.lexical datatype = t.normalize := by
  rw [literal_eq_reading, hread, Option.getD_some]

/-- It is read under no other datatype. -/
theorem datatype_of_literal (t : Term) (text datatype datatype' : String)
    (ht : t.datatype? = some datatype) (h : (literal text datatype').normalize = t.normalize) :
    datatype' = datatype := by
  have hdatatype := congrArg Term.datatype? h
  rw [Term.datatype?_normalize, Term.datatype?_normalize, datatype_literal, ht] at hdatatype
  exact Option.some.inj hdatatype

theorem reading?_int (i : Int64) : reading? (Term.int i).lexical Iri.integer = some (.int i) := by
  rw [reading?, if_pos rfl, Term.lexical, int64?_toString, Option.map_some]

theorem reading?_float (x : Double) :
    reading? (Term.float x).lexical Iri.float = some (.float x.normalize) := by
  rw [reading?, if_neg (by decide), if_pos rfl, Term.lexical, Double.ofText?_text, Option.map_some]

theorem reading?_bool (b : Bool) : reading? (Term.bool b).lexical Iri.boolean = some (.bool b) := by
  cases b <;> decide

/-- The term that is decoded from the form of a term. -/
def reread (v : Vocabulary) : Term → Term
  | .iri name => v.expand (Term.ofIdentifier name)
  | .blank label => .blank label
  | .plain text => .plain text
  | .lang text language => .lang text language
  | t => literal t.lexical (v.fullIri (shortDatatype v (t.datatype?.getD "")))

theorem decode_encode (v : Vocabulary) (t : Term) :
    decode v (encode v t).toJson = .ok (reread v t) := by
  cases t with
  | iri name => rfl
  -- An identifier with this start is read as a label and not expanded.
  | blank label =>
    have hblank := Term.ofIdentifier_blank label
    simp [encode, toJson, decode, Json.member?, hblank, Vocabulary.expand, reread]
  | plain text => rfl
  | lang text language => rfl
  | typed text datatype => rfl
  | int i => rfl
  | float x => rfl
  | bool b => rfl

/-- The terms that come back from their form, up to the bits of a not-a-number. -/
def Survives (v : Vocabulary) : Term → Prop
  | .iri name => (∀ label, name ≠ "_:" ++ label) ∧ v.fullIri name = name
  | .blank _ => True
  | .plain _ => True
  | .lang _ _ => True
  | .typed text datatype =>
    v.fullIri (shortDatatype v datatype) = datatype ∧
      ¬ ((datatype = Iri.integer ∧ (int64? text).isSome) ∨
        (datatype = Iri.float ∧ (Double.ofText? text).isSome) ∨
        (datatype = Iri.boolean ∧ (bool? text).isSome))
  | .int _ => v.fullIri (shortDatatype v Iri.integer) = Iri.integer
  | .float _ => v.fullIri (shortDatatype v Iri.float) = Iri.float
  | .bool _ => v.fullIri (shortDatatype v Iri.boolean) = Iri.boolean

theorem reread_of_survives (v : Vocabulary) (t : Term) (h : Survives v t) :
    reread v t = t.normalize := by
  cases t with
  | iri name =>
    obtain ⟨hname, hself⟩ := h
    rw [reread, Term.ofIdentifier_iri name hname, Vocabulary.expand, hself]
    rfl
  | blank label => rfl
  | plain text => rfl
  | lang text language => rfl
  | typed text datatype =>
    rw [Survives, ← isSome_reading?] at h
    exact (literal_eq_typed_iff text datatype _).mpr h
  | int i =>
    have hread := literal_of_reading (.int i) Iri.integer (reading?_int i)
    rwa [← show v.fullIri (shortDatatype v Iri.integer) = Iri.integer from h] at hread
  | float x =>
    have hread := literal_of_reading (.float x) Iri.float (reading?_float x)
    rwa [← show v.fullIri (shortDatatype v Iri.float) = Iri.float from h] at hread
  | bool b =>
    have hread := literal_of_reading (.bool b) Iri.boolean (reading?_bool b)
    rwa [← show v.fullIri (shortDatatype v Iri.boolean) = Iri.boolean from h] at hread

theorem survives_of_reread (v : Vocabulary) (t : Term)
    (h : (reread v t).normalize = t.normalize) : Survives v t := by
  cases t with
  | iri name =>
    have hself : reread v (.iri name) = .iri name := Term.eq_of_normalize_eq _ _ nofun h
    rw [reread] at hself
    have hname : ∀ label, name ≠ "_:" ++ label := by
      rintro label rfl
      rw [Term.ofIdentifier_blank] at hself
      cases hself
    rw [Term.ofIdentifier_iri name hname] at hself
    exact ⟨hname, Term.iri.inj hself⟩
  | blank label => exact trivial
  | plain text => exact trivial
  | lang text language => exact trivial
  | typed text datatype =>
    have hself : reread v (.typed text datatype) = .typed text datatype :=
      Term.eq_of_normalize_eq _ _ nofun h
    rw [Survives, ← isSome_reading?]
    exact (literal_eq_typed_iff text datatype _).mp hself
  | int i => exact datatype_of_literal _ _ _ _ rfl h
  | float x => exact datatype_of_literal _ _ _ _ rfl h
  | bool b => exact datatype_of_literal _ _ _ _ rfl h

theorem normalize_reread_iff (v : Vocabulary) (t : Term) :
    (reread v t).normalize = t.normalize ↔ Survives v t := by
  refine ⟨survives_of_reread v t, fun h => ?_⟩
  rw [reread_of_survives v t h, Term.normalize_normalize]

theorem reread_eq_iff (v : Vocabulary) (t : Term) :
    reread v t = t ↔ Survives v t ∧ t.normalize = t := by
  constructor
  · intro h
    have hsurvives := survives_of_reread v t (congrArg Term.normalize h)
    exact ⟨hsurvives, (reread_of_survives v t hsurvives).symm.trans h⟩
  · rintro ⟨hsurvives, hself⟩
    exact (reread_of_survives v t hsurvives).trans hself

/-- Every form of a term can be decoded, and which terms come back: up to the bits of a
not-a-number those that survive, and bit for bit those of them that are in normal form. -/
theorem decode_encode_eq_iff (v : Vocabulary) (t : Term) :
    ∃ w, decode v (encode v t).toJson = .ok w ∧
      (w.normalize = t.normalize ↔ Survives v t) ∧ (w = t ↔ Survives v t ∧ t.normalize = t) :=
  ⟨reread v t, decode_encode v t, normalize_reread_iff v t, reread_eq_iff v t⟩

end JsonLd

end QuadGraph
