import QuadGraph.Step.Basic

/-!
The names of steps and what they do, in a line each.
-/
namespace QuadGraph

/-- The name of a step and a line on what it does. -/
structure StepEntry where
  name : String
  description : String

namespace Step

def entry : Step → StepEntry
  | .vertex _ => ⟨"Vertex", "resolves to all the vertices, or to the given values"⟩
  | .entities _ => ⟨"Entities", "resolves to the entities with the given identifiers"⟩
  | .placeholder =>
    ⟨"Placeholder", "stands for the vertices of the enclosing Optional or Where"⟩
  | .visit _ (.one .forward) _ => ⟨"Visit", "moves to the objects of the given properties"⟩
  | .visit _ (.one .backward) _ =>
    ⟨"VisitReverse", "moves to the subjects of the given properties"⟩
  | .visit _ .both _ => ⟨"Both", "moves to both objects and subjects of the given properties"⟩
  | .has _ .forward _ _ =>
    ⟨"Has", "keeps vertices with the property set to one of the values"⟩
  | .has _ .backward _ _ =>
    ⟨"HasReverse", "keeps vertices that are the property value of one of the values"⟩
  | .isOneOf _ _ => ⟨"Is", "keeps vertices equal to one of the values"⟩
  | .named _ _ => ⟨"As", "names the current vertex so it can be selected or returned to"⟩
  | .back _ _ => ⟨"Back", "returns to the vertex named by a previous As"⟩
  | .combine _ .union _ =>
    ⟨"Union", "combines the current vertices with those of the given steps"⟩
  | .combine _ .intersect _ =>
    ⟨"Intersect", "keeps vertices also produced by every given step"⟩
  | .combine _ .difference _ =>
    ⟨"Difference", "drops vertices produced by any of the given steps"⟩
  | .limit _ _ => ⟨"Limit", "keeps at most the given number of vertices"⟩
  | .skip _ _ => ⟨"Skip", "drops the given number of vertices"⟩
  | .unique _ => ⟨"Unique", "removes repeated vertices"⟩
  | .order _ => ⟨"Order", "sorts vertices by their values"⟩
  | .regExp _ _ => ⟨"RegExp", "keeps literals matching the regular expression"⟩
  | .like _ _ => ⟨"Like", "keeps literals matching the wildcard pattern"⟩
  | .compare _ .less _ => ⟨"LessThan", "keeps values lower than the given value"⟩
  | .compare _ .greater _ => ⟨"GreaterThan", "keeps values greater than the given value"⟩
  | .compare _ .lessOrEqual _ =>
    ⟨"LessThanEquals", "keeps values lower than or equal to the given value"⟩
  | .compare _ .greaterOrEqual _ =>
    ⟨"GreaterThanEquals", "keeps values greater than or equal to the given value"⟩
  | .propertyNames _ .forward =>
    ⟨"PropertyNames", "moves to the names of the outgoing properties"⟩
  | .propertyNames _ .backward =>
    ⟨"ReversePropertyNames", "moves to the names of the incoming properties"⟩
  | .propertyNamesAs _ .forward _ =>
    ⟨"PropertyNamesAs", "tags the names of the outgoing properties"⟩
  | .propertyNamesAs _ .backward _ =>
    ⟨"ReversePropertyNamesAs", "tags the names of the incoming properties"⟩
  | .properties _ .forward _ => ⟨"Properties", "tags the values of the given properties"⟩
  | .properties _ .backward _ =>
    ⟨"ReverseProperties", "tags the subjects of the given reverse properties"⟩
  | .optional _ _ =>
    ⟨"Optional", "extends each match with the tags of a step, if it matches"⟩
  | .whereAll _ _ => ⟨"Where", "keeps vertices matching every clause and collects their tags"⟩
  | .context _ _ => ⟨"Context", "compiles a step with extra vocabulary rules"⟩
  | .matching _ _ => ⟨"Match", "keeps vertices matching a JSON-LD graph pattern"⟩
  | .shaped _ (.select _) => ⟨"Select", "returns the tagged vertices of each match"⟩
  | .shaped _ (.selectFirst _) =>
    ⟨"SelectFirst", "returns the tagged vertices of the first match"⟩
  | .shaped _ .value => ⟨"Value", "returns the first value"⟩
  | .shaped _ (.documents _) => ⟨"Documents", "returns one JSON-LD document per subject"⟩
  | .shaped _ .count => ⟨"Count", "returns the number of matches"⟩

def name (s : Step) : String :=
  s.entry.name

def description (s : Step) : String :=
  s.entry.description

end Step

end QuadGraph
