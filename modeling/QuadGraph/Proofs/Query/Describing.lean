import QuadGraph.Proofs.Json.Members
import QuadGraph.Proofs.Query.Telling
import QuadGraph.Proofs.Store.Outgoing

/-! The document that describes a subject: who it is, and its objects under the names of the
predicates. Where these names can be told apart, a document is this one as soon as it has the
distinct objects of every predicate, whatever else it was made of. -/
namespace QuadGraph

/-- The predicates of the quads about a subject are told apart by the names of their tags, which
leave the key of the identifier to the subject. -/
structure Nameable (quads : List Quad) (t : Term) : Prop where
  distinct : ∀ q ∈ quads, ∀ q' ∈ quads, q.subject = t → q'.subject = t →
    q.predicate.tagName = q'.predicate.tagName → q.predicate = q'.predicate
  apart : ∀ q ∈ quads, q.subject = t → q.predicate.tagName ≠ "@id"

/-- The encoded objects of the quads about a subject with a predicate, in the order in which they
come up first. -/
def objectsOf (quads : List Quad) (v : Vocabulary) (t p : Term) : List JsonLd :=
  ((quadsOf quads t p).map fun q => JsonLd.encode v q.object).eraseDups

theorem objectsOf_ne_nil (quads : List Quad) (v : Vocabulary) (t p : Term)
    (h : p ∈ predicatesOf quads t) : objectsOf quads v t p ≠ [] := by
  obtain ⟨q, hq⟩ := List.exists_mem_of_ne_nil _ (quadsOf_ne_nil quads t p h)
  have hobject : JsonLd.encode v q.object ∈ objectsOf quads v t p :=
    List.mem_eraseDups.mpr (List.mem_map.mpr ⟨q, hq, rfl⟩)
  exact List.ne_nil_of_mem hobject

/-- The document that tells the quads about a subject: who it is, and for each predicate the
objects. -/
def describe (quads : List Quad) (v : Vocabulary) (t : Term) : Json :=
  Json.ofMembers <| ("@id", .string t.lexical) :: (predicatesOf quads t).map fun p =>
    (p.tagName, .array ((objectsOf quads v t p).map JsonLd.toJson))

theorem nodup_names (quads : List Quad) (t : Term) (h : Nameable quads t) :
    ((predicatesOf quads t).map Term.tagName).Nodup := by
  apply (nodup_eraseDups _).map_on
  intro p hp p' hp' hname
  obtain ⟨q, hq, hsubject, rfl⟩ := (mem_predicatesOf quads t p).mp hp
  obtain ⟨q', hq', hsubject', rfl⟩ := (mem_predicatesOf quads t p').mp hp'
  exact h.distinct q hq q' hq' hsubject hsubject' hname

namespace Document

/-- A document whose entries have the distinct objects of every predicate, and nothing else, is the
one that describes its subject. -/
theorem toJson_telling_eq_describe (quads : List Quad) (v : Vocabulary) (t : Term)
    (entries : List (String × JsonLd)) (h : Nameable quads t)
    (hobjects : ∀ p ∈ predicatesOf quads t,
      (valuesOf p.tagName entries).eraseDups = objectsOf quads v t p)
    (hothers : ∀ name ∉ (predicatesOf quads t).map Term.tagName, valuesOf name entries = []) :
    (telling t entries).toJson = describe quads v t := by
  let value (name : String) : String × Json :=
    (name, .array ((valuesOf name entries).eraseDups.map JsonLd.toJson))
  have hmem (name : String) : name ∈ (entries.map (·.1)).eraseDups ↔
      name ∈ (predicatesOf quads t).map Term.tagName := by
    rw [List.mem_eraseDups]
    constructor
    · intro hname
      by_contra hnone
      exact valuesOf_ne_nil name entries hname (hothers name hnone)
    · intro hname
      by_contra hnone
      obtain ⟨p, hp, rfl⟩ := List.mem_map.mp hname
      have hnil := hobjects p hp
      rw [valuesOf_eq_nil _ _ hnone] at hnil
      exact objectsOf_ne_nil quads v t p hp hnil.symm
  have hnames : (entries.map (·.1)).eraseDups.Perm ((predicatesOf quads t).map Term.tagName) :=
    (List.perm_ext_iff_of_nodup (nodup_eraseDups _) (nodup_names quads t h)).mpr hmem
  have hmembers : (telling t entries).toJson = Json.ofMembers
      (("@id", .string t.lexical) :: (entries.map (·.1)).eraseDups.map value) := by
    rw [toJson, telling, tabulate, List.map_map]
    rfl
  have hdescribe : describe quads v t = Json.ofMembers
      (("@id", .string t.lexical) :: ((predicatesOf quads t).map Term.tagName).map value) := by
    rw [describe, List.map_map]
    congr 2
    apply List.map_congr_left
    intro p hp
    simp only [value, Function.comp_apply, hobjects p hp]
  rw [hmembers, hdescribe]
  apply Json.ofMembers_perm _ _ ((hnames.map value).cons _)
  -- The keys are the names, which are distinct and not that of the identifier.
  rw [List.map_cons, List.map_map, List.nodup_cons]
  constructor
  · intro hid
    obtain ⟨name, hname, hvalue⟩ := List.mem_map.mp hid
    obtain ⟨p, hp, rfl⟩ := List.mem_map.mp ((hmem name).mp hname)
    obtain ⟨q, hq, hsubject, rfl⟩ := (mem_predicatesOf quads t p).mp hp
    exact h.apart q hq hsubject hvalue
  · exact (List.map_id _).symm ▸ nodup_eraseDups _

end Document

end QuadGraph
