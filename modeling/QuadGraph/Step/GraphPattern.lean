import QuadGraph.JsonLd
import QuadGraph.Path.Basic

/-!
Graph patterns: JSON-LD objects that say which properties a node has. A pattern is read level by
level, so what is wrong inside a nested object is known only when that object is reached.
-/
namespace QuadGraph

/-- Conditions on a node, all of which have to hold. -/
inductive GraphPattern
  | nothing
  /-- What stands at this place of the level is malformed. -/
  | malformed (fault : QueryFault)
  /-- The node is one of some things. -/
  | isOneOf (things : List Term) (others : GraphPattern)
  /-- The node has a property with a value. -/
  | has (property : String) (value : Term) (others : GraphPattern)
  /-- The node has a property whose value matches a pattern of its own. -/
  | leadsTo (property : String) (pattern others : GraphPattern)

namespace GraphPattern

/-- The things named by a text or a list of texts. -/
def references (key : String) : Json → Except QueryFault (List Term)
  | .string id => .ok [Term.ofIdentifier id]
  | .array (item :: items) => (item :: items).mapM fun item =>
    match item.text? with
    | some id => .ok (Term.ofIdentifier id)
    | none => .error (.referenceNotText key)
  | _ => .error (.referencesExpected key)

/-- Whether an object stands for a value: it has one, or it has an identifier and nothing else. -/
def isValue (members : List (String × Json)) : Bool :=
  (Json.member? "@value" members).isSome ||
    (members.length == 1 && (Json.member? "@id" members).isSome)

/-- The condition that a property has the value of a JSON value. -/
def hasValue (v : Vocabulary) (property : String) (json : Json) (others : GraphPattern) :
    GraphPattern :=
  match JsonLd.decode v json with
  | .ok value => .has property value others
  | .error fault => .malformed fault

mutual

/-- The pattern of the members of an object. -/
def ofMembers (v : Vocabulary) : List (String × Json) → GraphPattern
  | [] => .nothing
  | (key, value) :: rest =>
    let others := ofMembers v rest
    if key = "@id" then
      match references key value with
      | .ok things => .isOneOf things others
      | .error fault => .malformed fault
    else if key = "@type" then
      match references key value with
      | .ok classes => classes.foldr (.has Iri.type) others
      | .error fault => .malformed fault
    else if key.toList.head? = some '@' then .malformed (.unsupportedKeyword key)
    else ofProperty v key value others

/-- The pattern of one property, one condition for every element of an array. -/
def ofProperty (v : Vocabulary) (property : String) : Json → GraphPattern → GraphPattern
  | .null, _ => .malformed (.nullProperty property)
  | .array [], _ => .malformed (.emptyProperty property)
  | .array items, others => ofItems v property items others
  | .object members, others =>
    if isValue members then hasValue v property (.object members) others
    else .leadsTo property (ofMembers v members) others
  | json, others => hasValue v property json others

def ofItems (v : Vocabulary) (property : String) : List Json → GraphPattern → GraphPattern
  | [], others => others
  | item :: items, others => ofProperty v property item (ofItems v property items others)

end

/-- What is wrong at this level, if something is. -/
def fault? : GraphPattern → Option QueryFault
  | .nothing => none
  | .malformed fault => some fault
  | .isOneOf _ others => others.fault?
  | .has _ _ others => others.fault?
  | .leadsTo _ _ others => others.fault?

end GraphPattern

end QuadGraph
