import QuadGraph.Proofs.JsonLd.Decoded
import QuadGraph.Proofs.Outcome
import QuadGraph.Proofs.Store.Links
import QuadGraph.Proofs.Vocabulary
import QuadGraph.Step.GraphPattern

/-! What graph patterns say about a node, read off the JSON members and read off the conditions that
are made from them. -/
namespace QuadGraph

open Outcome

/-- A node, given by its term if it has one, has a property with a value. -/
def HasValue (quads : List Quad) (v : Vocabulary) (s : Option Term) (property : String)
    (o : Term) : Prop :=
  ∃ t ∈ s, Links quads .forward t (.iri (v.fullIri property)) o

/-- The terms that are named by a text or by the texts in a list. -/
def Json.named : Json → List Term
  | .string id => [Term.ofIdentifier id]
  | .array items => (items.filterMap Json.text?).map Term.ofIdentifier
  | _ => []

mutual

/-- A node meets all members of a pattern object: it is one of the things under the identifier key,
has all types under the type key, and has what is said about its properties. -/
def Satisfies (quads : List Quad) (v : Vocabulary) : List (String × Json) → Option Term → Prop
  | [], _ => True
  | (key, value) :: rest, s =>
    (if key = "@id" then ∃ t ∈ value.named, s = some (v.expand t)
      else if key = "@type" then ∀ t ∈ value.named, HasValue quads v s Iri.type (v.expand t)
      else SatisfiesProperty quads v key value s) ∧
    Satisfies quads v rest s

/-- A node has a property with every value in a JSON value. A nested object that does not stand for
a value is a pattern for one of the values. -/
def SatisfiesProperty (quads : List Quad) (v : Vocabulary) (property : String) :
    Json → Option Term → Prop
  | .array items, s => SatisfiesItems quads v property items s
  | .object members, s =>
    if GraphPattern.isValue members then
      ∃ o, JsonLd.decode v (.object members) = .ok o ∧ HasValue quads v s property o
    else ∃ o, HasValue quads v s property o ∧ Satisfies quads v members (some o)
  | json, s => ∃ o, JsonLd.decode v json = .ok o ∧ HasValue quads v s property o

def SatisfiesItems (quads : List Quad) (v : Vocabulary) (property : String) :
    List Json → Option Term → Prop
  | [], _ => True
  | item :: items, s =>
    SatisfiesProperty quads v property item s ∧ SatisfiesItems quads v property items s

end

mutual

/-- No nested object stands for a node. -/
def ValuesOnly : Json → Prop
  | .array items => ValuesOnlyAll items
  | .object members => GraphPattern.isValue members
  | _ => True

def ValuesOnlyAll : List Json → Prop
  | [] => True
  | item :: items => ValuesOnly item ∧ ValuesOnlyAll items

end

namespace GraphPattern

/-- The conditions hold for a node, given by its term if it has one. -/
def Holds (quads : List Quad) (v : Vocabulary) : GraphPattern → Option Term → Prop
  | .nothing, _ => True
  | .malformed _, _ => False
  | .isOneOf things others, s => (∃ t ∈ things, s = some (v.expand t)) ∧ others.Holds quads v s
  | .has property value others, s =>
    HasValue quads v s property (v.expand value) ∧ others.Holds quads v s
  | .leadsTo property pattern others, s =>
    (∃ o, HasValue quads v s property o ∧ pattern.Holds quads v (some o)) ∧ others.Holds quads v s

/-- Nothing is malformed, at any level. -/
def WellFormed : GraphPattern → Prop
  | .nothing => True
  | .malformed _ => False
  | .isOneOf _ others => others.WellFormed
  | .has _ _ others => others.WellFormed
  | .leadsTo _ pattern others => pattern.WellFormed ∧ others.WellFormed

/-- The conditions do not lead to other nodes. -/
def Flat : GraphPattern → Prop
  | .nothing => True
  | .malformed _ => True
  | .isOneOf _ others => others.Flat
  | .has _ _ others => others.Flat
  | .leadsTo .. => False

theorem references_eq_named (key : String) (value : Json) (things : List Term)
    (h : references key value = .ok things) : things = value.named := by
  unfold references at h
  split at h
  · cases h
    rfl
  · next item items =>
    simp only [Json.named]
    have hall := (mapM_eq_ok _ _ _).mp h
    -- That the list is not empty plays no part from here on.
    generalize item :: items = texts at hall
    clear h
    induction hall with
    | nil => rfl
    | cons hfirst _ ih =>
      split at hfirst
      · next id hid =>
        cases hfirst
        simp [hid, ih]
      · cases hfirst
  · cases h

theorem holds_foldr_has (quads : List Quad) (v : Vocabulary) (property : String)
    (values : List Term) (others : GraphPattern) (s : Option Term) :
    (values.foldr (.has property) others).Holds quads v s ↔
      (∀ t ∈ values, HasValue quads v s property (v.expand t)) ∧ others.Holds quads v s := by
  induction values with
  | nil => simp
  | cons t rest ih => rw [List.foldr_cons, Holds, ih, List.forall_mem_cons, and_assoc]

theorem wellFormed_foldr_has (property : String) (values : List Term) (others : GraphPattern) :
    (values.foldr (.has property) others).WellFormed ↔ others.WellFormed := by
  induction values with
  | nil => rfl
  | cons t rest ih => exact ih

theorem flat_foldr_has (property : String) (values : List Term) (others : GraphPattern) :
    (values.foldr (.has property) others).Flat ↔ others.Flat := by
  induction values with
  | nil => rfl
  | cons t rest ih => exact ih

end GraphPattern

namespace JsonLd

variable {v : Vocabulary}

theorem expand_expand (hv : v.Idempotent) (t : Term) : v.expand (v.expand t) = v.expand t := by
  cases t <;> simp [Vocabulary.expand, hv _]

theorem expand_literal (hv : v.Idempotent) (text datatype : String) :
    v.expand (literal text (v.fullIri datatype)) = literal text (v.fullIri datatype) := by
  unfold literal
  simp only
  split_ifs
  · cases int64? text <;> simp [Vocabulary.expand, hv _]
  · cases Double.ofText? text <;> simp [Vocabulary.expand, hv _]
  · cases bool? text <;> simp [Vocabulary.expand, hv _]
  · simp [Vocabulary.expand, hv _]

theorem expand_number (n : JsonNumber) : v.expand (number n) = number n := by
  unfold number
  split <;> rfl

/-- The names in a decoded term are expanded already. -/
theorem expand_decode (hv : v.Idempotent) (json : Json) (t : Term) (h : decode v json = .ok t) :
    v.expand t = t := by
  cases decoded_of_decode json t h with
  | identifier id => exact expand_expand hv _
  | plain text => rfl
  | bool value => rfl
  | number n => exact expand_number n
  | lang text language => rfl
  | literal text type => exact expand_literal hv _ _

end JsonLd

namespace GraphPattern

variable {quads : List Quad} {v : Vocabulary}

theorem holds_hasValue (hv : v.Idempotent) (property : String) (json : Json)
    (others : GraphPattern) (s : Option Term)
    (h : (hasValue v property json others).WellFormed) :
    others.WellFormed ∧ ((hasValue v property json others).Holds quads v s ↔
      (∃ o, JsonLd.decode v json = .ok o ∧ HasValue quads v s property o) ∧
        others.Holds quads v s) := by
  unfold hasValue at h ⊢
  cases hd : JsonLd.decode v json with
  | error fault => simp [hd, WellFormed] at h
  | ok o =>
    rw [hd] at h
    refine ⟨h, ?_⟩
    simp [Holds, JsonLd.expand_decode hv json o hd]

mutual

/-- The conditions made from a pattern object hold for the nodes that satisfy it. -/
theorem holds_ofMembers (hv : v.Idempotent) (members : List (String × Json))
    (h : (ofMembers v members).WellFormed) (s : Option Term) :
    (ofMembers v members).Holds quads v s ↔ Satisfies quads v members s := by
  cases members with
  | nil => simp [ofMembers, Holds, Satisfies]
  | cons member rest =>
    obtain ⟨key, value⟩ := member
    rw [ofMembers] at h ⊢
    rw [Satisfies]
    split_ifs at h ⊢ with hid htype hkeyword
    · cases hr : references key value with
      | error fault => simp [hr, WellFormed] at h
      | ok things =>
        rw [hr] at h
        rw [Holds, holds_ofMembers hv rest h s, references_eq_named key value things hr]
    · cases hr : references key value with
      | error fault => simp [hr, WellFormed] at h
      | ok classes =>
        rw [hr] at h
        simp only [wellFormed_foldr_has] at h
        rw [holds_foldr_has, holds_ofMembers hv rest h s, references_eq_named key value classes hr]
    · exact h.elim
    · obtain ⟨hrest, hiff⟩ := holds_ofProperty hv key value _ h s
      rw [hiff, holds_ofMembers hv rest hrest s]

theorem holds_ofProperty (hv : v.Idempotent) (property : String) (json : Json)
    (others : GraphPattern) (h : (ofProperty v property json others).WellFormed)
    (s : Option Term) :
    others.WellFormed ∧ ((ofProperty v property json others).Holds quads v s ↔
      SatisfiesProperty quads v property json s ∧ others.Holds quads v s) := by
  cases json with
  | null => exact h.elim
  | bool value =>
    simp only [ofProperty, SatisfiesProperty] at h ⊢
    exact holds_hasValue hv property _ others s h
  | number n =>
    simp only [ofProperty, SatisfiesProperty] at h ⊢
    exact holds_hasValue hv property _ others s h
  | string text =>
    simp only [ofProperty, SatisfiesProperty] at h ⊢
    exact holds_hasValue hv property _ others s h
  | array items =>
    cases items with
    | nil => exact h.elim
    | cons item items => exact holds_ofItems hv property (item :: items) others h s
  | object members =>
    rw [ofProperty] at h ⊢
    rw [SatisfiesProperty]
    split_ifs at h ⊢ with hvalue
    · exact holds_hasValue hv property _ others s h
    · refine ⟨h.2, ?_⟩
      rw [Holds]
      simp only [holds_ofMembers hv members h.1]

theorem holds_ofItems (hv : v.Idempotent) (property : String) (items : List Json)
    (others : GraphPattern) (h : (ofItems v property items others).WellFormed)
    (s : Option Term) :
    others.WellFormed ∧ ((ofItems v property items others).Holds quads v s ↔
      SatisfiesItems quads v property items s ∧ others.Holds quads v s) := by
  cases items with
  | nil => exact ⟨h, by simp [ofItems, SatisfiesItems]⟩
  | cons item items =>
    rw [ofItems] at h ⊢
    obtain ⟨hitems, hfirst⟩ := holds_ofProperty hv property item _ h s
    obtain ⟨hothers, hrest⟩ := holds_ofItems hv property items others hitems s
    exact ⟨hothers, by rw [hfirst, hrest, SatisfiesItems, and_assoc]⟩

end

theorem flat_hasValue (property : String) (json : Json) (others : GraphPattern)
    (h : others.Flat) : (hasValue v property json others).Flat := by
  unfold hasValue
  split
  · exact h
  · exact trivial

mutual

theorem flat_ofProperty (property : String) (json : Json) (others : GraphPattern)
    (hj : ValuesOnly json) (h : others.Flat) : (ofProperty v property json others).Flat := by
  cases json with
  | null => exact trivial
  | bool value =>
    simp only [ofProperty]
    exact flat_hasValue property _ others h
  | number n =>
    simp only [ofProperty]
    exact flat_hasValue property _ others h
  | string text =>
    simp only [ofProperty]
    exact flat_hasValue property _ others h
  | array items =>
    cases items with
    | nil => exact trivial
    | cons item items => exact flat_ofItems property (item :: items) others hj h
  | object members =>
    have hvalue : isValue members := hj
    rw [ofProperty, if_pos hvalue]
    exact flat_hasValue property _ others h

theorem flat_ofItems (property : String) (items : List Json) (others : GraphPattern)
    (hj : ValuesOnlyAll items) (h : others.Flat) : (ofItems v property items others).Flat := by
  cases items with
  | nil => exact h
  | cons item items =>
    rw [ofItems]
    exact flat_ofProperty property item _ hj.1 (flat_ofItems property items others hj.2 h)

end

theorem flat_ofMembers (members : List (String × Json))
    (hm : ∀ member ∈ members, ValuesOnly member.2) : (ofMembers v members).Flat := by
  induction members with
  | nil => exact trivial
  | cons member rest ih =>
    obtain ⟨key, value⟩ := member
    rw [List.forall_mem_cons] at hm
    have hrest := ih hm.2
    rw [ofMembers]
    split_ifs
    · split
      · exact hrest
      · exact trivial
    · split
      · exact (flat_foldr_has _ _ _).mpr hrest
      · exact trivial
    · exact trivial
    · exact flat_ofProperty key value _ hm.1 hrest

end GraphPattern

end QuadGraph
