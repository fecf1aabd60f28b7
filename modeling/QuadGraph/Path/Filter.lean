import QuadGraph.Regex.Wildcard
import QuadGraph.Term.Order

/-!
Conditions on terms. A term that a condition cannot judge does not meet it.
-/
namespace QuadGraph

inductive Comparison
  | less
  | lessOrEqual
  | greater
  | greaterOrEqual
deriving DecidableEq

namespace Comparison

def symbol : Comparison → String
  | .less => "<"
  | .lessOrEqual => "<="
  | .greater => ">"
  | .greaterOrEqual => ">="

/-- Whether an order of two terms is as the comparison asks. -/
def accepts : Comparison → Ordering → Bool
  | .less, o => o.isLT
  | .lessOrEqual, o => o.isLE
  | .greater, o => o.isGT
  | .greaterOrEqual, o => o.isGE

end Comparison

inductive Filter
  /-- Terms that compare with the bound, in the native way. -/
  | compare (comparison : Comparison) (bound : Term)
  /-- Texts in which a regular expression is found. -/
  | regex (compiled : Regex)
  /-- Texts that match a wildcard pattern as a whole, by the regular expression that it becomes. -/
  | wildcard (pattern : String) (compiled : Regex)

namespace Filter

/-- Equality of conditions. Of compiled regular expressions only the texts that they come from are
compared. -/
def same : Filter → Filter → Bool
  | .compare comparison bound, .compare comparison' bound' =>
    comparison == comparison' && bound == bound'
  | .regex compiled, .regex compiled' => compiled.source == compiled'.source
  | .wildcard pattern _, .wildcard pattern' _ => pattern == pattern'
  | _, _ => false

instance : BEq Filter := ⟨same⟩

/-- Whether a term meets a condition. -/
def accepts (filter : Filter) (t : Term) : Bool :=
  match filter with
  | .compare comparison bound => (t.compareNative? bound).any comparison.accepts
  | .regex compiled | .wildcard _ compiled => t.text?.any compiled.isMatch

variable [RegexEngine]

/-- The condition of a regular expression. -/
def ofRegex (pattern : String) : Except String Filter :=
  return .regex (← RegexEngine.compile pattern)

/-- The condition of a wildcard pattern. -/
def ofWildcard (pattern : String) : Except String Filter :=
  return .wildcard pattern (← RegexEngine.compile (Wildcard.source pattern))

end Filter

end QuadGraph
