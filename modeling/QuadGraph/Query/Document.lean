import QuadGraph.Query.Records
import QuadGraph.Slots
import QuadGraph.Step.Basic
import QuadGraph.Term.Key

/-!
Documents: one JSON-LD object for a subject, with the values of every tag over its matches. Values
keep the order in which they come up, and none is repeated.
-/
namespace QuadGraph

structure Document where
  subject : Term
  properties : List (String × List JsonLd)
deriving DecidableEq

namespace Document

/-- Adds a value to the values of a property, unless it is there. A new property comes last. -/
def addTo (property : String) (value : JsonLd) :
    List (String × List JsonLd) → List (String × List JsonLd)
  | [] => [(property, [value])]
  | (name, values) :: rest =>
    if name = property then
      (name, if values.contains value then values else values ++ [value]) :: rest
    else (name, values) :: addTo property value rest

def add (d : Document) (property : String) (value : JsonLd) : Document :=
  { d with properties := addTo property value d.properties }

/-- Adds all values of another document. -/
def merge (d other : Document) : Document :=
  other.properties.foldl (fun d property =>
    property.2.foldl (fun d value => d.add property.1 value) d) d

/-- The document of one match. -/
def ofMatch (w : Walk) (subject : Term) (tags : List (String × Term)) : Document :=
  tags.foldl (fun d tag => d.add tag.1 (w.encode tag.2)) ⟨subject, []⟩

/-- The identifier of the subject and the values of the properties. A property of the same name as
the identifier takes its place. -/
def toJson (d : Document) : Json :=
  Json.ofMembers <| ("@id", .string d.subject.lexical) ::
    d.properties.map fun (name, values) => (name, .array (values.map JsonLd.toJson))

/-- Merges a document into the one with its subject, or else puts it behind the others. -/
def insertInto (docs : Slots Term Document Term.compareKey) (doc : Document) :
    Slots Term Document Term.compareKey :=
  match docs.place? doc.subject with
  | some place => docs.change place (·.merge doc)
  | none => docs.push doc.subject doc

theorem length_insertInto_le (docs : Slots Term Document Term.compareKey) (doc : Document) :
    (insertInto docs doc).items.length ≤ docs.items.length + 1 := by
  unfold insertInto
  split <;> simp

end Document

namespace RecordWalk

/-- The document of the next match. None stands for the end or for a failure. -/
def pull (token : Token) (r : RecordWalk) : Option Document × RecordWalk :=
  match r.advance token with
  | (false, r) => (none, r)
  | (true, r) =>
    match r.subject with
    | (none, r) => (none, r)
    | (some subject, r) =>
      match r.tags with
      | (none, r) => (none, r)
      | (some tags, r) => (some (Document.ofMatch r.walk subject tags), r)

/-- Pulling a document takes a match, and pulling in vain brings none. -/
theorem bound_pull (token : Token) (r : RecordWalk) :
    (r.pull token).2.walk.bound + (r.pull token).1.toList.length ≤ r.walk.bound := by
  have hle := r.walk.bound_advance_le token
  have hlt := @Walk.bound_advance_lt token r.walk
  unfold pull advance
  cases h : r.walk.advance token with
  | mk found walk =>
    rw [h] at hle hlt
    cases found with
    | false => simpa using hle
    | true =>
      have ha : walk.bound + 1 ≤ r.walk.bound := hlt rfl
      have hs := bound_subject_le { r with walk }
      simp only
      split
      · next hr =>
        rw [hr] at hs
        simp only [Option.toList_none, List.length_nil] at hs ⊢
        omega
      · next r' hr =>
        rw [hr] at hs
        have ht := r'.bound_tags_le
        split
        · next hr =>
          rw [hr] at ht
          simp only [Option.toList_none, List.length_nil] at hs ht ⊢
          omega
        · next hr =>
          rw [hr] at ht
          simp only [Option.toList_some, List.length_singleton] at hs ht ⊢
          omega

end RecordWalk

end QuadGraph
