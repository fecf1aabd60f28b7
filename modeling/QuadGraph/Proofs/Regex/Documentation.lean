import Mathlib.Logic.Relation
import QuadGraph.Regex.Engine

/-! What a library of regular expressions documents about the syntax that wildcard patterns are
turned into: the two anchors, the dot and runs of it, escaped text, and the flag with which a dot
stands for line ends. Each has a law of its own, and so do parts in a row, the search for a match
and the limit on the size of what a text is compiled to. -/
namespace QuadGraph

/-- The parts of which the regular expressions of wildcard patterns are made up. -/
inductive RegexPart
  | start
  | stop
  | any
  | anyRun
  | literal (text : String)

namespace RegexPart

variable [RegexEngine]

/-- How a part is written. -/
def source : RegexPart → String
  | .start => "^"
  | .stop => "$"
  | .any => "."
  | .anyRun => ".*"
  | .literal text => RegexEngine.escape text

/-- Parts in a row. -/
def sources : List RegexPart → String
  | [] => ""
  | part :: rest => part.source ++ sources rest

end RegexPart

open RegexPart

/-- The documented behaviour of a library. `Spans dotAll source text i j` is for a regular
expression that can take up what stands in a text between two places, with dots that stand for line
ends or not, and `size source` for the size of what it is compiled to. -/
structure RegexEngine.Documented [RegexEngine]
    (Spans : Bool → String → List Char → Nat → Nat → Prop) (size : String → Nat) (limit : Nat) :
    Prop where
  /-- Parts in a row are well formed, so that nothing but the size limit keeps them from being
  compiled. -/
  compile : ∀ parts, size ("(?s)" ++ sources parts) ≤ limit →
    ∃ compiled, RegexEngine.compile ("(?s)" ++ sources parts) = .ok compiled
  /-- A match is searched for in the whole text. -/
  isMatch : ∀ source compiled, RegexEngine.compile source = .ok compiled → ∀ text : String,
    (compiled.isMatch text ↔ ∃ i j, i ≤ text.length ∧ Spans false source text.toList i j)
  /-- The flag holds for all that follows. -/
  dotAll : ∀ parts text i j,
    Spans false ("(?s)" ++ sources parts) text i j ↔ Spans true (sources parts) text i j
  /-- Concatenation: a part, and behind it the others. -/
  concatenation : ∀ (part : RegexPart) parts text i j, parts ≠ [] →
    (Spans true (part.source ++ sources parts) text i j ↔
      ∃ k, Spans true part.source text i k ∧ Spans true (sources parts) text k j)
  /-- Without the multi-line flag a caret stands for the beginning of the text. -/
  start : ∀ text i j, i ≤ text.length → (Spans true "^" text i j ↔ i = 0 ∧ j = i)
  /-- Without the multi-line flag a dollar sign stands for the end of the text. -/
  stop : ∀ text i j, i ≤ text.length → (Spans true "$" text i j ↔ i = text.length ∧ j = i)
  /-- A dot stands for any one character. -/
  any : ∀ text i j, Spans true "." text i j ↔ i < text.length ∧ j = i + 1
  /-- With an asterisk a dot is taken any number of times. -/
  star : ∀ text i j,
    Spans true ".*" text i j ↔ Relation.ReflTransGen (Spans true "." text) i j
  /-- An escaped text stands for itself. -/
  escape : ∀ literal text i j, Spans true (RegexEngine.escape literal) text i j ↔
    literal.toList <+: text.drop i ∧ j = i + literal.length

end QuadGraph
