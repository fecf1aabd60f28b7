import QuadGraph.Json.Numeral

/-!
JSON as written: the tree of a text before its strings, numbers and repeated keys are given a
meaning. A text is well formed or not by its grammar alone; what a reader does with a part that it
needs is decided in the module on decoding.
-/
namespace QuadGraph

/-- A piece of a string as written: a character, or a code unit of a four-digit escape. -/
inductive StringPiece
  | char (value : Char)
  | unit (code : Nat)

inductive WrittenJson
  | null
  | bool (value : Bool)
  | number (value : JsonNumeral)
  | string (pieces : List StringPiece)
  | array (items : List WrittenJson)
  | object (members : List (List StringPiece × WrittenJson))

namespace WrittenJson

def isBlank (c : Char) : Bool :=
  c = ' ' || c = '\n' || c = '\t' || c = '\r'

def skipBlanks (text : List Char) : List Char :=
  text.dropWhile isBlank

def hexValue? (c : Char) : Option Nat :=
  if '0' ≤ c ∧ c ≤ '9' then some (c.toNat - 48)
  else if 'a' ≤ c ∧ c ≤ 'f' then some (c.toNat - 87)
  else if 'A' ≤ c ∧ c ≤ 'F' then some (c.toNat - 55)
  else none

/-- The character of a one-letter escape. -/
def letterEscape? (c : Char) : Option Char :=
  if c = '\x22' ∨ c = '\\' ∨ c = '/' then some c
  else if c = 'b' then some '\x08'
  else if c = 'f' then some '\x0c'
  else if c = 'n' then some '\n'
  else if c = 'r' then some '\r'
  else if c = 't' then some '\t'
  else none

/-- Reads a string from behind its first quote. Control characters have to be escaped. -/
def readString (done : List StringPiece) : List Char → Option (List StringPiece × List Char)
  | [] => none
  | '\\' :: 'u' :: a :: b :: c :: d :: rest => do
    let unit := ((← hexValue? a) * 16 + (← hexValue? b)) * 256
      + (← hexValue? c) * 16 + (← hexValue? d)
    readString (.unit unit :: done) rest
  | '\\' :: e :: rest => do readString (.char (← letterEscape? e) :: done) rest
  | c :: rest =>
    if c = '\x22' then some (done.reverse, rest)
    else if c.toNat < 32 ∨ c = '\\' then none
    else readString (.char c :: done) rest

/-- Digits, at least one. -/
def readDigits? (text : List Char) : Option (List Char × List Char) :=
  let (digits, rest) := Numeral.digits text
  if digits.isEmpty then none else some (digits, rest)

/-- Reads a number. Its integer part does not start with a zero unless it is zero. -/
def readNumber (text : List Char) : Option (WrittenJson × List Char) := do
  let (negative, text) := match text with
    | '-' :: rest => (true, rest)
    | other => (false, other)
  let (whole, text) ← readDigits? text
  guard (whole.head? ≠ some '0' ∨ whole.length = 1)
  let (fraction, text) ← match text with
    | '.' :: rest => (readDigits? rest).map fun (digits, rest) => (some digits, rest)
    | other => some (none, other)
  let (exponent, text) ← match text with
    | e :: rest =>
      if e = 'e' ∨ e = 'E' then
        let (sign, rest) := Numeral.sign rest
        (readDigits? rest).map fun (digits, rest) => (some (sign, digits), rest)
      else some (none, e :: rest)
    | [] => some (none, [])
  return (.number ⟨negative, whole, fraction, exponent⟩, text)

mutual

/-- Reads one value and gives back the text behind it. The first argument bounds the number of
nested readings. -/
def readValue : Nat → List Char → Option (WrittenJson × List Char)
  | 0, _ => none
  | fuel + 1, text =>
    match skipBlanks text with
    | 'n' :: 'u' :: 'l' :: 'l' :: rest => some (.null, rest)
    | 't' :: 'r' :: 'u' :: 'e' :: rest => some (.bool true, rest)
    | 'f' :: 'a' :: 'l' :: 's' :: 'e' :: rest => some (.bool false, rest)
    | '\x22' :: rest => (readString [] rest).map fun (pieces, rest) => (.string pieces, rest)
    | '[' :: rest =>
      match skipBlanks rest with
      | ']' :: rest => some (.array [], rest)
      | rest => (readItems fuel rest).map fun (items, rest) => (.array items, rest)
    | '\x7b' :: rest =>
      match skipBlanks rest with
      | '\x7d' :: rest => some (.object [], rest)
      | rest => (readMembers fuel rest).map fun (members, rest) => (.object members, rest)
    | rest => readNumber rest

/-- Reads the items of an array up to its closing bracket, at least one. -/
def readItems : Nat → List Char → Option (List WrittenJson × List Char)
  | 0, _ => none
  | fuel + 1, text => do
    let (item, rest) ← readValue fuel text
    match skipBlanks rest with
    | ',' :: rest =>
      let (items, rest) ← readItems fuel rest
      return (item :: items, rest)
    | ']' :: rest => return ([item], rest)
    | _ => none

/-- Reads the members of an object up to its closing brace, at least one. -/
def readMembers : Nat → List Char → Option (List (List StringPiece × WrittenJson) × List Char)
  | 0, _ => none
  | fuel + 1, text => do
    let (key, rest) ← match skipBlanks text with
      | '\x22' :: rest => readString [] rest
      | _ => none
    let (value, rest) ← match skipBlanks rest with
      | ':' :: rest => readValue fuel rest
      | _ => none
    match skipBlanks rest with
    | ',' :: rest =>
      let (members, rest) ← readMembers fuel rest
      return ((key, value) :: members, rest)
    | '\x7d' :: rest => return ([(key, value)], rest)
    | _ => none

end

/-- Reads a whole text. Every reading but the outermost takes a character off the text or belongs
to one that does, so twice its length is bound enough. -/
def read? (text : String) : Option WrittenJson := do
  let chars := text.toList
  let (value, rest) ← readValue (2 * chars.length + 2) chars
  guard (skipBlanks rest).isEmpty
  return value

end WrittenJson

end QuadGraph
