import QuadGraph.Number.Double

/-!
JSON data. The members of an object stand in a list; objects taken as data keep them sorted by
key, each key once, and `setMember` maintains that order.
-/
namespace QuadGraph

/-- A JSON number: an integer from -2 ^ 63 to 2 ^ 64 - 1, or a finite binary64 number. -/
inductive JsonNumber
  | integer (value : Int)
  | real (negative : Bool) (magnitude : Magnitude)
deriving DecidableEq

namespace JsonNumber

/-- The number as an integer of 64 bits, where it is an integer and fits. -/
def int64? : JsonNumber → Option Int64
  | .integer value =>
    if value ≤ Int64.maxValue.toInt then some (Int64.ofInt value) else none
  | .real _ _ => none

/-- The number as a binary64 number. -/
def double : JsonNumber → Double
  | .integer value => Double.ofInt value
  | .real negative magnitude => .number negative magnitude

end JsonNumber

inductive Json
  | null
  | bool (value : Bool)
  | number (value : JsonNumber)
  | string (text : String)
  | array (items : List Json)
  | object (members : List (String × Json))
deriving Inhabited

namespace Json

/-- Puts a member into a list of members sorted by key, in place of one with the same key. -/
def setMember (key : String) (value : Json) :
    List (String × Json) → List (String × Json)
  | [] => [(key, value)]
  | (k, v) :: rest =>
    match compare key k with
    | .lt => (key, value) :: (k, v) :: rest
    | .eq => (key, value) :: rest
    | .gt => (k, v) :: setMember key value rest

/-- The object with the given members, sorted by key; the last of repeated keys counts. -/
def ofMembers (members : List (String × Json)) : Json :=
  .object (members.foldl (fun sorted member => setMember member.1 member.2 sorted) [])

/-- The value of a key in a list of members. -/
def member? (key : String) (members : List (String × Json)) : Option Json :=
  members.lookup key

/-- The text of a string. -/
def text? : Json → Option String
  | .string text => some text
  | _ => none

end Json

end QuadGraph
