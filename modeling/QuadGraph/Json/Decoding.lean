import QuadGraph.Json.Written

/-!
Decoding JSON as written: into data, and into the fields, variants and scalars of typed records. A
decoder looks only at the parts it needs, so a part that it passes over may hold strings and
numbers that have no value.
-/
namespace QuadGraph

namespace StringPiece

/-- The characters of a string. Two code units that make up a surrogate pair have to follow each
other, and one alone has no character. -/
def chars? : List StringPiece → Option (List Char)
  | [] => some []
  | .char c :: rest => (chars? rest).map (c :: ·)
  | .unit high :: rest =>
    if 0xd800 ≤ high ∧ high < 0xdc00 then
      match rest with
      | .unit low :: rest =>
        if 0xdc00 ≤ low ∧ low < 0xe000 then
          let code := 0x10000 + (high - 0xd800) * 0x400 + (low - 0xdc00)
          (chars? rest).map (Char.ofNat code :: ·)
        else none
      | _ => none
    else if 0xdc00 ≤ high ∧ high < 0xe000 then none
    else (chars? rest).map (Char.ofNat high :: ·)

/-- The text of a string. -/
def text? (pieces : List StringPiece) : Option String :=
  (chars? pieces).map String.ofList

end StringPiece

namespace WrittenJson

mutual

/-- The data of a value, if it is not nested more than the given number of levels. -/
def data? : Nat → WrittenJson → Option Json
  | _, .null => some .null
  | _, .bool value => some (.bool value)
  | _, .number value => value.number?.map .number
  | _, .string pieces => (StringPiece.text? pieces).map .string
  | 0, .array _ => none
  | 0, .object _ => none
  | depth + 1, .array items => (itemsData? depth items).map .array
  | depth + 1, .object members => (membersData? depth members).map Json.ofMembers

def itemsData? (depth : Nat) : List WrittenJson → Option (List Json)
  | [] => some []
  | item :: rest => do return (← data? depth item) :: (← itemsData? depth rest)

def membersData? (depth : Nat) :
    List (List StringPiece × WrittenJson) → Option (List (String × Json))
  | [] => some []
  | (key, value) :: rest => do
    return (← StringPiece.text? key, ← data? depth value) :: (← membersData? depth rest)

end

/-- The text of a string. -/
def text? : WrittenJson → Option String
  | .string pieces => StringPiece.text? pieces
  | _ => none

def bool? : WrittenJson → Option Bool
  | .bool value => some value
  | _ => none

/-- An integer from low to high, written without point and exponent. -/
def integer? (low high : Int) : WrittenJson → Option Int
  | .number value =>
    match value.number? with
    | some (.integer i) => if low ≤ i ∧ i ≤ high then some i else none
    | _ => none
  | _ => none

def double? : WrittenJson → Option Double
  | .number value => value.number?.map JsonNumber.double
  | _ => none

/-- An object with text for every member; the last of repeated keys counts. -/
def textMembers? : WrittenJson → Option (List (String × String))
  | .object members => members.mapM fun (key, value) => do
    return (← StringPiece.text? key, ← text? value)
  | _ => none

/-- The one value of a key among members; repeated keys are refused. -/
def unique? (key : String) (members : List (String × WrittenJson)) :
    Option (Option WrittenJson) :=
  match members.filter fun member => member.1 = key with
  | [] => some none
  | [(_, value)] => some (some value)
  | _ => none

/-- The fields of a record in the order of their names. A record is an object, in which other
members are passed over and fields may be missing, or an array of the fields in order, which has
all of them unless it may stop early. -/
def fields? (names : List String) (mayStopEarly : Bool) :
    WrittenJson → Option (List (Option WrittenJson))
  | .object members => do
    let keyed ← members.mapM fun (key, value) => do
      return (← StringPiece.text? key, value)
    names.mapM fun name => unique? name keyed
  | .array items =>
    if items.length = names.length ∨ (mayStopEarly ∧ items.length < names.length) then
      some (items.map some ++ List.replicate (names.length - items.length) none)
    else none
  | _ => none

/-- The name of a variant and its content: a bare name, or an object with one member. -/
def variant? : WrittenJson → Option (String × Option WrittenJson)
  | .string pieces => (StringPiece.text? pieces).map fun name => (name, none)
  | .object [(key, value)] => (StringPiece.text? key).map fun name => (name, some value)
  | _ => none

end WrittenJson

/-- Reads JSON data from a text, nested at most 127 levels. -/
def Json.read? (text : String) : Option Json := do
  (← WrittenJson.read? text).data? 127

end QuadGraph
