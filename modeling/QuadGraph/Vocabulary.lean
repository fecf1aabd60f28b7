import QuadGraph.Term.Basic
import Std.Data.ExtTreeMap

/-!
Vocabularies: how short names stand for IRIs. A rule says what one name stands for; a registered
start of names says it for every name that begins with it.
-/
namespace QuadGraph

/-- The texts that keys stand for. Tables with the same entries are equal. -/
abbrev TextTable := Std.ExtTreeMap String String

structure Vocabulary where
  /-- Starts of short names, usually up to a colon, and the starts of IRIs they stand for. -/
  prefixes : TextTable
  /-- Short names and the IRIs they stand for. -/
  rules : TextTable
deriving DecidableEq

namespace Vocabulary

def empty : Vocabulary :=
  ⟨∅, ∅⟩

def addPrefix (v : Vocabulary) (short full : String) : Vocabulary :=
  { v with prefixes := v.prefixes.insert short full }

def addRule (v : Vocabulary) (short full : String) : Vocabulary :=
  { v with rules := v.rules.insert short full }

/-- The vocabulary of the four starts of names that are known by default. -/
def standard : Vocabulary :=
  empty
    |>.addPrefix "schema:" Iri.schema
    |>.addPrefix "rdf:" Iri.rdf
    |>.addPrefix "rdfs:" Iri.rdfs
    |>.addPrefix "xsd:" Iri.xsd

/-- The vocabulary with more rules, which win over rules for the same names. -/
def withRules (v : Vocabulary) (rules : TextTable) : Vocabulary :=
  { v with rules := v.rules ∪ rules }

/-- What follows the start of a name, if the name has that start. -/
def rest? (start name : String) : Option String :=
  (start.toList.isPrefixOf? name.toList).map String.ofList

/-- The IRI of a name: by its rule, or else by the first matching start in the order of starts. A
name that neither covers stands for itself. -/
def fullIri (v : Vocabulary) (name : String) : String :=
  match v.rules[name]? with
  | some full => full
  | none =>
    let expansions := v.prefixes.toList.findSome? fun (short, full) =>
      (rest? short name).map (full ++ ·)
    expansions.getD name

/-- The shorter name of an IRI by the longest matching start, the last of several as long. An IRI
without a matching start stays as it is. -/
def shortIri (v : Vocabulary) (iri : String) : String :=
  let longest := v.prefixes.toList.foldl (fun (best : Option (String × String)) candidate =>
      let isBetter := best.all fun b => b.2.length ≤ candidate.2.length
      if (rest? candidate.2 iri).isSome && isBetter then some candidate else best)
    none
  match longest with
  | some (short, full) => short ++ (rest? full iri).getD ""
  | none => iri

/-- Expands the name of a thing, or of the datatype of a text. -/
def expand (v : Vocabulary) : Term → Term
  | .iri name => .iri (v.fullIri name)
  | .typed text datatype => .typed text (v.fullIri datatype)
  | t => t

end Vocabulary

end QuadGraph
