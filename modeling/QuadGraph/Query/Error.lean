import QuadGraph.Json.Printer
import QuadGraph.Store.Basic
import QuadGraph.Text.Quoted

/-!
Why a query fails: it is malformed, the store fails, a node has no term, or it is canceled.
-/
namespace QuadGraph

/-- What is wrong with a query that cannot be carried out. -/
inductive QueryFault
  /-- A step that reads from another one stands alone. -/
  | sourceRequired (step : String)
  | placeholderOutside
  /-- A step that shapes results is read from. -/
  | notAPath (step : String)
  /-- The report is the one of the library of regular expressions. -/
  | invalidRegex (pattern report : String)
  | invalidWildcard (pattern report : String)
  | unsupportedKeyword (keyword : String)
  | nullProperty (property : String)
  | emptyProperty (property : String)
  | referencesExpected (key : String)
  | referenceNotText (key : String)
  | notAValue (json : Json)
  | idNotText
  | idOrValueMissing
  | languageWithoutText

def QueryFault.message : QueryFault → String
  | .sourceRequired step => step ++ " requires a from step"
  | .placeholderOutside => "Placeholder can only be used inside Optional or Where"
  | .notAPath step => step ++ " cannot be used as a path"
  | .invalidRegex pattern report =>
    "invalid regular expression " ++ Quoted.quote pattern ++ ": " ++ report
  | .invalidWildcard pattern report =>
    "invalid pattern " ++ Quoted.quote pattern ++ ": " ++ report
  | .unsupportedKeyword keyword => "unsupported pattern keyword " ++ keyword
  | .nullProperty property => "pattern property " ++ property ++ " is null"
  | .emptyProperty property => "pattern property " ++ property ++ " has no values"
  | .referencesExpected key => key ++ " must be a string or a non-empty array of strings"
  | .referenceNotText key => key ++ " values must be strings"
  | .notAValue json => json.print ++ " is not a JSON-LD value"
  | .idNotText => "@id must be a string"
  | .idOrValueMissing => "value object needs @id or @value"
  | .languageWithoutText => "@language requires a string @value"

inductive QueryError
  /-- Raised before anything is looked for; trying again is of no use. -/
  | configuration (fault : QueryFault)
  | store (error : StoreError)
  /-- A match at a node for which the store has no term. -/
  | resolution (node : NodeId)
  | canceled

namespace QueryError

def message : QueryError → String
  | .configuration fault => "configuration error: " ++ fault.message
  | .store error => error.message
  | .resolution node => "cannot resolve node " ++ node.text ++ " to a value"
  | .canceled => "query canceled"

/-- Canceling ends a query without being a failure. -/
def isFatal : QueryError → Bool
  | .canceled => false
  | _ => true

end QueryError

end QuadGraph
