import QuadGraph.Term.Basic
import QuadGraph.Text.Quoted

/-!
The form of a term for reading by people.
-/
namespace QuadGraph.Term

/-- References between angle brackets or behind an underscore, literals between quotes and with
their datatype or language. -/
def display : Term → String
  | .iri name => "<" ++ name ++ ">"
  | .blank label => "_:" ++ label
  | .plain text => Quoted.quote text
  | .typed text datatype => Quoted.quote text ++ "^^<" ++ datatype ++ ">"
  | .lang text language => Quoted.quote text ++ "@" ++ language
  | t => "\"" ++ t.lexical ++ "\"^^<" ++ t.datatype?.getD "" ++ ">"

end QuadGraph.Term
