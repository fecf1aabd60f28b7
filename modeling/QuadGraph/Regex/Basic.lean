import QuadGraph.Regex.Engine
import QuadGraph.Regex.Expr
import QuadGraph.Regex.Reader

/-!
An engine for regular expressions, with which queries can be run: the meaning of a pattern under the
modes that it switches, and patterns compiled to their meaning unless they are malformed or too
large. Queries do not depend on it; they may be run with any other.
-/
namespace QuadGraph

namespace Regex

/-- The modes in force at a place of a pattern. -/
structure Modes where
  caseless : Bool := false
  multiLine : Bool := false
  dotAll : Bool := false
  unicode : Bool := true
  crlf : Bool := false

namespace Modes

/-- The modes after some switches. Greed and the layout of a pattern do not bear on what it
finds. -/
def apply (modes : Modes) (switches : Switches) : Modes :=
  switches.foldl (fun modes (flag, on) =>
    match flag with
    | .caseless => { modes with caseless := on }
    | .multiLine => { modes with multiLine := on }
    | .dotAll => { modes with dotAll := on }
    | .unicode => { modes with unicode := on }
    | .crlf => { modes with crlf := on }
    | .swapGreed => modes
    | .extended => modes) modes

/-- A class under the case mode. -/
def fold (modes : Modes) (members : CharClass) : CharClass :=
  if !modes.caseless then members
  else if modes.unicode then .caseless members
  else .asciiCaseless members

/-- The complement of a class if it is negated. Without the Unicode mode a complement would hold
bytes that are no characters, and is refused. -/
def negate? (modes : Modes) (negated : Bool) (members : CharClass) : Option CharClass :=
  if !negated then some members
  else if modes.unicode then some (.complement members)
  else none

/-- The character of a literal in a pattern. Without the Unicode mode a byte has to be ASCII. -/
def char? (modes : Modes) (literal : Literal) : Option Char :=
  if !modes.unicode ∧ literal.isByte ∧ 128 ≤ literal.char.toNat then none else some literal.char

/-- The character of a literal in a class, which has to be ASCII without the Unicode mode. -/
def classChar? (modes : Modes) (literal : Literal) : Option Char :=
  if !modes.unicode ∧ 128 ≤ literal.char.toNat then none else some literal.char

/-- The members of a class of one letter. -/
def short (modes : Modes) (kind : ShortClass) : CharClass :=
  match kind, modes.unicode with
  | .digit, true => NamedClass.digit
  | .space, true => NamedClass.space
  | .word, true => NamedClass.word
  | .digit, false => .range 48 57
  | .space, false => .union (.range 9 13) (.single ' ')
  | .word, false => CharClass.unions [.range 48 57, .range 65 90, .range 97 122, .single '_']

end Modes

namespace ClassSet

mutual

/-- The members of a class. Case is folded before a class is negated and before classes are
combined. -/
def members? (modes : Modes) : ClassSet → Option CharClass
  | .single literal => (modes.classChar? literal).map .single
  | .range low high => do
    return .range (← modes.classChar? low).toNat (← modes.classChar? high).toNat
  | .ascii members negated => modes.negate? negated (modes.fold members)
  | .named members negated =>
    if modes.unicode then modes.negate? negated (modes.fold members) else none
  | .short kind negated => modes.negate? negated (modes.short kind)
  | .bracketed inner negated => do modes.negate? negated (modes.fold (← members? modes inner))
  | .union items => (allMembers? modes items).map CharClass.unions
  | .operation operator left right => do
    let left := modes.fold (← members? modes left)
    let right := modes.fold (← members? modes right)
    return match operator with
      | .intersection => .intersection left right
      | .difference => .difference left right
      | .symmetricDifference => .symmetricDifference left right

def allMembers? (modes : Modes) : List ClassSet → Option (List CharClass)
  | [] => some []
  | item :: rest => do return (← members? modes item) :: (← allMembers? modes rest)

end

end ClassSet

/-- The condition of an assertion. -/
def Assertion.look (modes : Modes) : Assertion → Look
  | .lineStart => if modes.multiLine then .lineStart modes.crlf else .textStart
  | .lineEnd => if modes.multiLine then .lineEnd modes.crlf else .textEnd
  | .textStart => .textStart
  | .textEnd => .textEnd
  | .wordBoundary => .boundary modes.unicode true
  | .notWordBoundary => .boundary modes.unicode false
  | .wordStart => .wordStart modes.unicode false
  | .wordEnd => .wordEnd modes.unicode false
  | .wordStartHalf => .wordStart modes.unicode true
  | .wordEndHalf => .wordEnd modes.unicode true

namespace Pattern

mutual

/-- The expression of a pattern and the modes in force behind it. Switches stay in force up to the
end of their group, also in its later branches. -/
def meaning? (modes : Modes) : Pattern → Option (Expr × Modes)
  | .empty => some (.empty, modes)
  | .switches settings => some (.empty, modes.apply settings)
  | .literal written => do
    return (.one (modes.fold (.single (← modes.char? written))), modes)
  | .dot =>
    let lineEnds : CharClass :=
      if modes.crlf then .union (.single '\r') (.single '\n') else .single '\n'
    if modes.unicode then
      some (.one (if modes.dotAll then .all else .complement lineEnds), modes)
    else none
  | .assertion kind => some (.look (kind.look modes), modes)
  | .set members => do return (.one (← members.members? modes), modes)
  | .repetition least most inner => do
    let (inner, modes) ← meaning? modes inner
    return (.repetition least most inner, modes)
  | .group settings inner => do
    let (inner, _) ← meaning? (modes.apply settings) inner
    return (inner, modes)
  | .concatenation items => concatenation? modes items
  | .alternation branches => alternation? modes branches

def concatenation? (modes : Modes) : List Pattern → Option (Expr × Modes)
  | [] => some (.empty, modes)
  | item :: rest => do
    let (first, modes) ← meaning? modes item
    let (others, modes) ← concatenation? modes rest
    return (.sequence first others, modes)

def alternation? (modes : Modes) : List Pattern → Option (Expr × Modes)
  | [] => some (.one .empty, modes)
  | branch :: rest => do
    let (first, modes) ← meaning? modes branch
    let (others, modes) ← alternation? modes rest
    return (.either first others, modes)

end

end Pattern

/-- The expression of a text, unless it is malformed. -/
def expr? (dotAll : Bool) (source : String) : Option Expr := do
  let pattern ← Pattern.read? source
  let (expr, _) ← pattern.meaning? { dotAll }
  return expr

/-- How many states an expression may unfold to: as many as go into 10 MiB, at 32 bytes a state. -/
def maxStates : Nat :=
  10485760 / 32

/-- A character, behind a backslash if it means something in a regular expression. -/
def escapeChar (c : Char) : List Char :=
  if isSpecial c then ['\\', c] else [c]

instance engine : RegexEngine where
  escape text := String.ofList (text.toList.flatMap escapeChar)
  compile source :=
    match expr? false source with
    | none => .error "malformed regular expression"
    | some expr =>
      if expr.states ≤ maxStates then .ok ⟨source, fun text => expr.isFoundIn text.toList⟩
      else .error "Compiled regex exceeds size limit of 10485760 bytes."

end Regex

end QuadGraph
