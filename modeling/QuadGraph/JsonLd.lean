import QuadGraph.Number.Numeral
import QuadGraph.Query.Error
import QuadGraph.Vocabulary

/-!
Terms in JSON-LD. A reference is an object with an identifier; a literal is an object with a value
and perhaps a datatype or a language. Datatypes are written by short names.
-/
namespace QuadGraph

/-- The JSON-LD form of a term. -/
inductive JsonLd
  | reference (id : String)
  | plain (value : String)
  | tagged (value language : String)
  | typed (value type : String)
deriving DecidableEq

namespace JsonLd

def toJson : JsonLd → Json
  | .reference id => .object [("@id", .string id)]
  | .plain value => .object [("@value", .string value)]
  | .tagged value language => .object [("@language", .string language), ("@value", .string value)]
  | .typed value type => .object [("@type", .string type), ("@value", .string value)]

/-- The short name of a datatype. The standard vocabulary helps where the given one does not. -/
def shortDatatype (v : Vocabulary) (datatype : String) : String :=
  let short := v.shortIri datatype
  if short ≠ datatype then short else Vocabulary.standard.shortIri datatype

/-- The form of a term under a vocabulary. -/
def encode (v : Vocabulary) : Term → JsonLd
  | .iri name => .reference name
  | .blank label => .reference ("_:" ++ label)
  | .plain text => .plain text
  | .lang text language => .tagged text language
  | t => .typed t.lexical (shortDatatype v (t.datatype?.getD ""))

/-- The literal of a text and the IRI of a datatype: a number or a truth value if the datatype is
one and the text can be read so, and else a typed text. -/
def literal (text datatype : String) : Term :=
  let read :=
    if datatype = Iri.integer then (int64? text).map .int
    else if datatype = Iri.float then (Double.ofText? text).map .float
    else if datatype = Iri.boolean then (bool? text).map .bool
    else none
  read.getD (.typed text datatype)

/-- The term of a JSON number, an integer where it fits. -/
def number (n : JsonNumber) : Term :=
  match n.int64? with
  | some i => .int i
  | none => .float n.double

mutual

/-- The term of a JSON value under a vocabulary. Strings, numbers and truth values stand for
themselves; in objects an identifier wins over a value, and a language over a datatype. -/
def decode (v : Vocabulary) : Json → Except QueryFault Term
  | .string text => .ok (.plain text)
  | .bool value => .ok (.bool value)
  | .number value => .ok (number value)
  | .null => .error (.notAValue .null)
  | .array items => .error (.notAValue (.array items))
  | .object members =>
    match Json.member? "@id" members with
    | some (.string id) => .ok (v.expand (Term.ofIdentifier id))
    | some _ => .error .idNotText
    | none =>
      match Json.member? "@value" members with
      | none => .error .idOrValueMissing
      | some raw =>
        match (Json.member? "@language" members).bind Json.text?, raw.text? with
        | some language, some text => .ok (.lang text language)
        | some _, none => .error .languageWithoutText
        | none, text =>
          match (Json.member? "@type" members).bind Json.text? with
          | some type => .ok (literal (text.getD raw.print) (v.fullIri type))
          | none => decodeValue v members

/-- The term of the value among the members of an object. -/
def decodeValue (v : Vocabulary) : List (String × Json) → Except QueryFault Term
  | [] => .error .idOrValueMissing
  | (key, value) :: rest => if key = "@value" then decode v value else decodeValue v rest

end

end JsonLd

end QuadGraph
