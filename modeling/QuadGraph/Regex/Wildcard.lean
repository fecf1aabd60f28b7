import QuadGraph.Regex.Engine

/-!
Wildcard patterns: a percent sign stands for any run of characters, an underscore for exactly one,
and every other character for itself. A pattern is turned into a regular expression that has to take
up the whole text, in which the characters between two signs are escaped.
-/
namespace QuadGraph.Wildcard

variable [RegexEngine]

/-- What a pattern becomes. The characters since the last sign, the last one first, are held back
and escaped together before the next one. -/
def translate (held : List Char) : List Char → String
  | [] => RegexEngine.escape (String.ofList held.reverse)
  | c :: rest =>
    if c = '%' then RegexEngine.escape (String.ofList held.reverse) ++ ".*" ++ translate [] rest
    else if c = '_' then RegexEngine.escape (String.ofList held.reverse) ++ "." ++ translate [] rest
    else translate (c :: held) rest

/-- The text of the regular expression of a pattern, in which a dot stands for line ends too. -/
def source (pattern : String) : String :=
  "(?s)^" ++ translate [] pattern.toList ++ "$"

end QuadGraph.Wildcard
