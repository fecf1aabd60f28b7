import QuadGraph.Path.Basic
import QuadGraph.Json.Basic
import QuadGraph.Vocabulary

/-!
Steps, of which queries are made. A step goes on from the step it reads from, its source, and a
step without a source goes on from all nodes. Properties are given by steps whose nodes are the
predicates; a property known by its name is the step to that entity.
-/
namespace QuadGraph

/-- How matches are put together into documents. -/
inductive Grouping
  /-- Matches in a row with the same subject make up a document. -/
  | adjacent
  /-- All matches with the same subject make up a document. -/
  | bySubject
deriving DecidableEq

/-- What becomes of the matches of a query. -/
inductive Shape
  /-- Records of the given tags, or of all tags if none is given. -/
  | select (tags : List String)
  | selectFirst (tags : List String)
  | value
  | documents (grouping : Grouping)
  | count

inductive SetOperation
  | union
  | intersect
  | difference

inductive Step
  /-- The nodes of some terms, or all nodes if no term is given. -/
  | vertex (terms : List Term)
  /-- The nodes of some names. -/
  | entities (names : List String)
  /-- The match that the step around this one has come to. -/
  | placeholder
  | visit (source : Option Step) (route : Route) (properties : List Step)
  /-- Keeps nodes with a property, to one of the values if there are any. -/
  | has (source : Option Step) (way : Way) (properties : List Step) (values : List Term)
  | isOneOf (source : Option Step) (values : List Term)
  /-- Names the node. -/
  | named (source : Option Step) (name : String)
  /-- Returns to a named node; without a name to the one that was named last. -/
  | back (source : Option Step) (name : Option String)
  | combine (source : Option Step) (operation : SetOperation) (steps : List Step)
  | limit (source : Option Step) (count : Nat)
  | skip (source : Option Step) (count : Nat)
  | unique (source : Option Step)
  | order (source : Option Step)
  | regExp (source : Option Step) (pattern : String)
  | like (source : Option Step) (pattern : String)
  | compare (source : Option Step) (comparison : Comparison) (bound : Term)
  | propertyNames (source : Option Step) (way : Way)
  | propertyNamesAs (source : Option Step) (way : Way) (tag : String)
  /-- Names the values of properties after them, of all properties if no name is given. -/
  | properties (source : Option Step) (way : Way) (names : List String)
  | optional (source : Option Step) (step : Step)
  | whereAll (source : Option Step) (steps : List Step)
  /-- Reads its source with more rules for names. -/
  | context (source : Option Step) (rules : TextTable)
  | matching (source : Option Step) (pattern : List (String × Json))
  | shaped (source : Option Step) (shape : Shape)

namespace Step

/-- The step to the property of a name. -/
def property (name : String) : Step :=
  .entities [name]

/-- The step that a step reads from. -/
def source? : Step → Option Step
  | .vertex _ => none
  | .entities _ => none
  | .placeholder => none
  | .visit source .. => source
  | .has source .. => source
  | .isOneOf source _ => source
  | .named source _ => source
  | .back source _ => source
  | .combine source .. => source
  | .limit source _ => source
  | .skip source _ => source
  | .unique source => source
  | .order source => source
  | .regExp source _ => source
  | .like source _ => source
  | .compare source .. => source
  | .propertyNames source _ => source
  | .propertyNamesAs source .. => source
  | .properties source .. => source
  | .optional source _ => source
  | .whereAll source _ => source
  | .context source _ => source
  | .matching source _ => source
  | .shaped source _ => source

theorem sizeOf_lt_of_source {s t : Step} (h : s.source? = some t) : sizeOf t < sizeOf s := by
  cases s <;> simp only [source?, reduceCtorEq] at h <;> subst h <;> simp <;> omega

/-- A step, the step it reads from, and so on. -/
def chain (s : Step) : List Step :=
  match _h : s.source? with
  | none => [s]
  | some t => s :: chain t
termination_by sizeOf s
decreasing_by exact sizeOf_lt_of_source _h

/-- The name that a step gives to its node. -/
def givenName? : Step → Option String
  | .named _ name => some name
  | _ => none

/-- Whether a step finds nodes, and does not shape results. -/
def isPath : Step → Bool
  | .shaped .. => false
  | _ => true

end Step

end QuadGraph
