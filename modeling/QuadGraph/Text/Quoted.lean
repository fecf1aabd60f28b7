import QuadGraph.Text.NamedClass

/-!
Text between quotes, for reading by people: what cannot be seen is written by its code point.
-/
namespace QuadGraph.Quoted

/-- Characters that cannot be seen by themselves: controls, format characters, separators other
than the blank, characters for private use, unassigned ones, and those that extend the character
before them. -/
def invisible : CharClass :=
  .difference (.union NamedClass.extending (.union NamedClass.other NamedClass.separator))
    (.single ' ')

/-- How a character stands between quotes. -/
def escaped (c : Char) : List Char :=
  if c = '\x00' then ['\\', '0']
  else if c = '\t' then ['\\', 't']
  else if c = '\r' then ['\\', 'r']
  else if c = '\n' then ['\\', 'n']
  else if c = '\\' then ['\\', '\\']
  else if c = '\x22' then ['\\', '\x22']
  else if invisible.contains c then
    '\\' :: 'u' :: '\x7b' :: (Nat.toDigits 16 c.toNat ++ ['\x7d'])
  else [c]

/-- A text between quotes. -/
def quote (text : String) : String :=
  "\"" ++ String.ofList (text.toList.flatMap escaped) ++ "\""

end QuadGraph.Quoted
