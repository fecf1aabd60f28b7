import QuadGraph.Json.Decoding
import QuadGraph.Json.Printer
import QuadGraph.Quad
import QuadGraph.Step.Basic

/-!
The JSON form of the data of a graph, for exchange with other programs. A term is an object whose
one key names its kind; other records have a field for each of their parts, written in the order of
the parts. Reading accepts what writing gives, and also a record as the array of its fields.
-/
namespace QuadGraph

namespace WrittenJson

/-- A part that may be missing or null. -/
def optional? (read? : WrittenJson → Option α) : Option WrittenJson → Option (Option α)
  | none => some none
  | some .null => some none
  | some json => (read? json).map some

end WrittenJson

namespace NodeId

def toJson (n : NodeId) : Json :=
  .number (.integer n.index)

def ofJson? (json : WrittenJson) : Option NodeId :=
  (json.integer? 0 (UInt32.size - 1)).map fun i => ⟨i.toNat⟩

end NodeId

namespace TextTable

def toJson (table : TextTable) : Json :=
  .object (table.toList.map fun (key, text) => (key, .string text))

def ofJson? (json : WrittenJson) : Option TextTable :=
  json.textMembers?.map fun members => Std.ExtTreeMap.ofList members

end TextTable

namespace Term

def toJson : Term → Json
  | .iri name => .object [("Iri", .string name)]
  | .blank label => .object [("BlankNode", .string label)]
  | .plain text => .object [("String", .string text)]
  | .typed text datatype =>
    .object [("TypedString", .object [("value", .string text), ("datatype", .string datatype)])]
  | .lang text language =>
    .object [("LangString", .object [("value", .string text), ("language", .string language)])]
  | .int value => .object [("Int", .number (.integer value.toInt))]
  -- JSON has no not-a-number; null stands in for it.
  | .float (.nan _ _) => .object [("Float", .null)]
  | .float (.number negative m) => .object [("Float", .number (.real negative m))]
  | .bool value => .object [("Bool", .bool value)]

/-- The two texts of a record with a value and another field. -/
def texts? (field : String) (json : WrittenJson) : Option (String × String) := do
  match ← json.fields? ["value", field] false with
  | [some text, some other] => return (← text.text?, ← other.text?)
  | _ => none

def ofJson? (json : WrittenJson) : Option Term := do
  match ← json.variant? with
  | ("Iri", some content) => content.text?.map .iri
  | ("BlankNode", some content) => content.text?.map .blank
  | ("String", some content) => content.text?.map .plain
  | ("TypedString", some content) =>
    (texts? "datatype" content).map fun (text, datatype) => .typed text datatype
  | ("LangString", some content) =>
    (texts? "language" content).map fun (text, language) => .lang text language
  | ("Int", some content) =>
    (content.integer? Int64.minValue.toInt Int64.maxValue.toInt).map fun i =>
      .int (Int64.ofInt i)
  | ("Float", some content) => content.double?.map .float
  | ("Bool", some content) => content.bool?.map .bool
  | _ => none

end Term

namespace Quad

def toJson (q : Quad) : Json :=
  .object [
    ("subject", q.subject.toJson),
    ("predicate", q.predicate.toJson),
    ("object", q.object.toJson),
    ("label", (q.label.map Term.toJson).getD .null)]

def ofJson? (json : WrittenJson) : Option Quad := do
  match ← json.fields? ["subject", "predicate", "object", "label"] false with
  | [some subject, some predicate, some object, label] =>
    return {
      subject := ← Term.ofJson? subject
      predicate := ← Term.ofJson? predicate
      object := ← Term.ofJson? object
      label := ← WrittenJson.optional? Term.ofJson? label }
  | _ => none

end Quad

namespace IndexedQuad

def toJson (q : IndexedQuad) : Json :=
  .object [
    ("id", .number (.integer q.id.index)),
    ("subject", q.subject.toJson),
    ("predicate", q.predicate.toJson),
    ("object", q.object.toJson),
    ("label", (q.label.map NodeId.toJson).getD .null)]

def ofJson? (json : WrittenJson) : Option IndexedQuad := do
  match ← json.fields? ["id", "subject", "predicate", "object", "label"] false with
  | [some id, some subject, some predicate, some object, label] =>
    return {
      id := ⟨(← NodeId.ofJson? id).index⟩
      subject := ← NodeId.ofJson? subject
      predicate := ← NodeId.ofJson? predicate
      object := ← NodeId.ofJson? object
      label := ← WrittenJson.optional? NodeId.ofJson? label }
  | _ => none

end IndexedQuad

namespace Vocabulary

def toJson (v : Vocabulary) : Json :=
  .object [("prefixes", TextTable.toJson v.prefixes), ("rules", TextTable.toJson v.rules)]

def ofJson? (json : WrittenJson) : Option Vocabulary := do
  match ← json.fields? ["prefixes", "rules"] false with
  | [some prefixes, some rules] =>
    return ⟨← TextTable.ofJson? prefixes, ← TextTable.ofJson? rules⟩
  | _ => none

end Vocabulary

namespace Grouping

def toJson : Grouping → Json
  | .adjacent => .string "Adjacent"
  | .bySubject => .string "BySubject"

/-- Reads a grouping by its name, alone or as the key of a null. -/
def ofJson? (json : WrittenJson) : Option Grouping := do
  match ← json.variant? with
  | ("Adjacent", none) => some .adjacent
  | ("Adjacent", some .null) => some .adjacent
  | ("BySubject", none) => some .bySubject
  | ("BySubject", some .null) => some .bySubject
  | _ => none

end Grouping

end QuadGraph
