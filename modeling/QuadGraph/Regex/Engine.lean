/-!
Regular expressions as queries use them. Which texts are regular expressions, and where one is
found, is up to a library.
-/
namespace QuadGraph

/-- A compiled regular expression. -/
structure Regex where
  /-- The text that it comes from. -/
  source : String
  /-- Whether it is found somewhere in a text. -/
  isMatch : String → Bool

/-- A library of regular expressions. -/
class RegexEngine where
  /-- A text in which no character has a meaning of its own. -/
  escape : String → String
  /-- The regular expression of a text, or a report of what is wrong with the text. -/
  compile : String → Except String Regex

end QuadGraph
