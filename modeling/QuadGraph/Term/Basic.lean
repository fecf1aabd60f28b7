import QuadGraph.Number.Decimal

/-!
Terms, the values that nodes of a graph stand for: references to things, and literals.
-/
namespace QuadGraph

namespace Iri

/-! IRIs with a fixed meaning: what the names of four vocabularies start with, and some names. -/

def schema : String := "http://schema.org/"
def rdf : String := "http://www.w3.org/1999/02/22-rdf-syntax-ns#"
def rdfs : String := "http://www.w3.org/2000/01/rdf-schema#"
def xsd : String := "http://www.w3.org/2001/XMLSchema#"
def integer : String := "http://schema.org/Integer"
def float : String := "http://schema.org/Float"
def boolean : String := "http://schema.org/Boolean"
def type : String := "http://www.w3.org/1999/02/22-rdf-syntax-ns#type"

end Iri

inductive Term
  /-- A thing named by an IRI. -/
  | iri (name : String)
  /-- A thing without a name, known by a label inside one graph. -/
  | blank (label : String)
  | plain (text : String)
  /-- A text together with the IRI of its datatype. -/
  | typed (text datatype : String)
  /-- A text in a language. -/
  | lang (text language : String)
  | int (value : Int64)
  | float (value : Double)
  | bool (value : Bool)
deriving DecidableEq

namespace Term

def isReference : Term → Bool
  | .iri _ => true
  | .blank _ => true
  | _ => false

def isLiteral (t : Term) : Bool :=
  !t.isReference

/-- The text that names a reference or writes a literal down, without its datatype. -/
def lexical : Term → String
  | .iri name => name
  | .blank label => "_:" ++ label
  | .plain text => text
  | .typed text _ => text
  | .lang text _ => text
  | .int value => toString value.toInt
  | .float value => value.text
  | .bool true => "true"
  | .bool false => "false"

/-- The text of a literal that is one; numbers, truth values and references have none. -/
def text? : Term → Option String
  | .plain text => some text
  | .typed text _ => some text
  | .lang text _ => some text
  | _ => none

/-- The IRI of the datatype of a typed literal, a number or a truth value. -/
def datatype? : Term → Option String
  | .typed _ datatype => some datatype
  | .int _ => some Iri.integer
  | .float _ => some Iri.float
  | .bool _ => some Iri.boolean
  | _ => none

def language? : Term → Option String
  | .lang _ language => some language
  | _ => none

/-- The name of the tag under which a term that is a predicate is saved. -/
def tagName (t : Term) : String :=
  t.lexical

/-- The reference of an identifier: a blank node if it starts with an underscore and a colon, and
an IRI otherwise. -/
def ofIdentifier (id : String) : Term :=
  match id.toList with
  | '_' :: ':' :: label => .blank (String.ofList label)
  | _ => .iri id

end Term

end QuadGraph
