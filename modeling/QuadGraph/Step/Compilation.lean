import QuadGraph.Step.Catalogue
import QuadGraph.Step.GraphPattern

/-!
From steps to paths. Names are expanded by a vocabulary and looked up in a store, which is asked
nothing else. A placeholder stands for the ambient path, if there is one: inside an optional step
and inside clauses that is the match from which the path is walked.
-/
namespace QuadGraph

namespace Compilation

/-- The nodes of some terms after their names are expanded. Terms that the store does not know
have none. -/
def resolve (store : QuadStore) (v : Vocabulary) (terms : List Term) :
    Except QueryError (List NodeId) :=
  (store.known (terms.map v.expand)).mapError .store

/-- The path to a property by its name. -/
def property (store : QuadStore) (v : Vocabulary) (name : String) : Except QueryError Path := do
  return .fixed (← resolve store v [.iri name])

/-- The nodes of some terms, or no condition if there are no terms. -/
def targets (store : QuadStore) (v : Vocabulary) (terms : List Term) :
    Except QueryError (Option (List NodeId)) :=
  if terms.isEmpty then return none else some <$> resolve store v terms

/-- Any predicate, or those that one of some paths comes to. -/
def alternatives : List Path → Path
  | [] => .all
  | first :: others => others.foldl .union first

/-- Names the values of properties, one property after the other. -/
def save (store : QuadStore) (v : Vocabulary) (way : Way) :
    List String → Path → Except QueryError Path
  | [], source => return source
  | name :: names, source => do
    save store v way names (.save source way (← property store v name) name)

/-- Applies a set operation to a path and further ones, from left to right. -/
def combine (operation : SetOperation) (source : Path) (others : List Path) : Path :=
  others.foldl (match operation with
    | .union => .union
    | .intersect => .intersect
    | .difference => .except) source

/-- Asks for a source where a step cannot do without. -/
def require (step : String) (source : Option Step) : Except QueryError Unit :=
  if source.isSome then return else throw (.configuration (.sourceRequired step))

end Compilation

open Compilation

namespace GraphPattern

/-- The clauses of the conditions at one level, which is not malformed. -/
def clauses (store : QuadStore) (v : Vocabulary) : GraphPattern → Except QueryError (List Path)
  | .nothing => return []
  | .malformed fault => throw (.configuration fault)
  | .isOneOf things others => do
    let nodes ← resolve store v things
    return .isOneOf .here nodes :: (← clauses store v others)
  | .has name value others => do
    let via ← property store v name
    let nodes ← resolve store v [value]
    return .has .here .forward via (some nodes) :: (← clauses store v others)
  | .leadsTo name pattern others => do
    let via ← property store v name
    if let some fault := pattern.fault? then throw (.configuration fault)
    let inner ← clauses store v pattern
    return .whereAll (.follow .here (.one .forward) via) inner :: (← clauses store v others)

/-- The clauses of a pattern. What is wrong at a level is raised before the store is asked about
that level. -/
def compile (store : QuadStore) (v : Vocabulary) (pattern : GraphPattern) :
    Except QueryError (List Path) := do
  if let some fault := pattern.fault? then throw (.configuration fault)
  pattern.clauses store v

end GraphPattern

namespace Step

variable [RegexEngine]

mutual

/-- The path of a step under a vocabulary and an ambient path. -/
def compile (store : QuadStore) : Step → Vocabulary → Option Path → Except QueryError Path
  | .vertex terms, v, _ =>
    if terms.isEmpty then return .all else .fixed <$> resolve store v terms
  | .entities names, v, _ => .fixed <$> resolve store v (names.map .iri)
  | .placeholder, _, ambient =>
    match ambient with
    | some path => return path
    | none => throw (.configuration .placeholderOutside)
  | .visit source route predicates, v, ambient => do
    let source ← compileSource store source v ambient
    return .follow source route (alternatives (← compileAll store predicates v none))
  | .has source way predicates values, v, ambient => do
    let source ← compileSource store source v ambient
    let via := alternatives (← compileAll store predicates v none)
    return .has source way via (← targets store v values)
  | .isOneOf source values, v, ambient => do
    let source ← compileSource store source v ambient
    return .isOneOf source (← resolve store v values)
  | .named source name, v, ambient => do
    return .tag (← compileSource store source v ambient) name
  | .back source name, v, ambient => do
    require "Back" source
    let path ← compileSource store source v ambient
    return .back path (name <|> source.bind fun s => s.chain.findSome? givenName?)
  | .combine source operation steps, v, ambient => do
    if let .intersect := operation then require "Intersect" source
    let source ← compileSource store source v ambient
    return Compilation.combine operation source (← compileAll store steps v ambient)
  | .limit source count, v, ambient => do
    return .limit (← compileSource store source v ambient) count
  | .skip source count, v, ambient => do
    return .skip (← compileSource store source v ambient) count
  | .unique source, v, ambient => do
    return .unique (← compileSource store source v ambient)
  | .order source, v, ambient => do
    return .order (← compileSource store source v ambient)
  | .regExp source pattern, v, ambient => do
    let condition ← (Filter.ofRegex pattern).mapError (.configuration <| .invalidRegex pattern ·)
    return .filter (← compileSource store source v ambient) condition
  | .like source pattern, v, ambient => do
    let condition ←
      (Filter.ofWildcard pattern).mapError (.configuration <| .invalidWildcard pattern ·)
    return .filter (← compileSource store source v ambient) condition
  | .compare source comparison bound, v, ambient => do
    return .filter (← compileSource store source v ambient) (.compare comparison (v.expand bound))
  | .propertyNames source way, v, ambient => do
    return .predicates (← compileSource store source v ambient) way
  | .propertyNamesAs source way tag, v, ambient => do
    return .savePredicates (← compileSource store source v ambient) way tag
  | .properties source way names, v, ambient => do
    let source ← compileSource store source v ambient
    if names.isEmpty then return .saveAll source way
    Compilation.save store v way names source
  | .optional source step, v, ambient => do
    require "Optional" source
    let source ← compileSource store source v ambient
    return .optional source (← compile store step v (some .here))
  | .whereAll source steps, v, ambient => do
    let source ← compileSource store source v ambient
    return .whereAll source (← compileAll store steps v (some .here))
  | .context source rules, v, ambient => compileSource store source (v.withRules rules) ambient
  | .matching source pattern, v, ambient => do
    let source ← compileSource store source v ambient
    return .whereAll source (← (GraphPattern.ofMembers v pattern).compile store v)
  | .shaped source shape, _, _ =>
    throw (.configuration (.notAPath (Step.shaped source shape).name))

/-- The path of the step that another one reads from, or the path to all nodes. -/
def compileSource (store : QuadStore) :
    Option Step → Vocabulary → Option Path → Except QueryError Path
  | none, _, _ => return .all
  | some source, v, ambient => compile store source v ambient

/-- The paths of some steps. -/
def compileAll (store : QuadStore) :
    List Step → Vocabulary → Option Path → Except QueryError (List Path)
  | [], _, _ => return []
  | step :: steps, v, ambient => do
    let path ← compile store step v ambient
    return path :: (← compileAll store steps v ambient)

end

end Step

end QuadGraph
