import QuadGraph.Text.NamedClass

/-!
Regular expressions as data, and whether one is found in a text. Matching keeps a mark for every
place of the text, before its first character, between two characters and behind its last, and
moves the marks along the expression; the place where a match starts is never needed.
-/
namespace QuadGraph.Regex

/-- Conditions on the characters before and behind a place. -/
inductive Look
  | textStart
  | textEnd
  /-- Behind a line end and at the start; with crlf a carriage return ends lines too. -/
  | lineStart (crlf : Bool)
  | lineEnd (crlf : Bool)
  | boundary (unicode expected : Bool)
  | wordStart (unicode half : Bool)
  | wordEnd (unicode half : Bool)

namespace Look

/-- Whether there is a character of words, of ASCII only unless unicode is set. -/
def isWord (unicode : Bool) : Option Char → Bool
  | none => false
  | some c => if unicode then NamedClass.word.contains c else c.isAlphanum || c == '_'

/-- Whether the condition holds between two characters. A missing one is an end of the text. -/
def holds (look : Look) (before behind : Option Char) : Bool :=
  match look with
  | .textStart => before.isNone
  | .textEnd => behind.isNone
  | .lineStart false => before.all (· == '\n')
  | .lineEnd false => behind.all (· == '\n')
  | .lineStart true =>
    before.all fun c => c == '\n' || (c == '\r' && behind != some '\n')
  | .lineEnd true =>
    behind.all fun c => c == '\r' || (c == '\n' && before != some '\r')
  | .boundary unicode expected => (isWord unicode before != isWord unicode behind) == expected
  | .wordStart unicode half => !isWord unicode before && (half || isWord unicode behind)
  | .wordEnd unicode half => (half || isWord unicode before) && !isWord unicode behind

end Look

inductive Expr
  | empty
  | one (members : CharClass)
  | look (condition : Look)
  | sequence (first second : Expr)
  | either (left right : Expr)
  /-- At least so many times, and at most so many if there is a bound. -/
  | repetition (least : Nat) (most : Option Nat) (inner : Expr)

namespace Expr

/-- The characters on both sides of every place of a text. -/
def sides (before : Option Char) : List Char → List (Option Char × Option Char)
  | [] => [(before, none)]
  | c :: rest => (before, some c) :: sides (some c) rest

/-- Applies a function a number of times. -/
def iterate (f : List Bool → List Bool) : Nat → List Bool → List Bool
  | 0, places => places
  | n + 1, places => iterate f n (f places)

/-- Adds what a function reaches, a number of times or until nothing is added. -/
def grow (f : List Bool → List Bool) : Nat → List Bool → List Bool
  | 0, places => places
  | n + 1, places =>
    let more := List.zipWith (· || ·) places (f places)
    if more = places then places else grow f n more

/-- The places where the expression ends if it starts at one of the marked places. A repetition
of more rounds than there are places makes one round without a character, which may be made any
number of times, so the number of rounds is bounded by the number of places. -/
def advance (text : List Char) : Expr → List Bool → List Bool
  | .empty, places => places
  | .one members, places =>
    false :: List.zipWith (fun c place => place && members.contains c) text places
  | .look condition, places =>
    List.zipWith (fun side place => place && condition.holds side.1 side.2) (sides none text) places
  | .sequence first second, places => advance text second (advance text first places)
  | .either left right, places =>
    List.zipWith (· || ·) (advance text left places) (advance text right places)
  | .repetition least most inner, places =>
    let bound := text.length + 1
    let started := iterate (advance text inner) (min least bound) places
    match most with
    | none => grow (advance text inner) bound started
    | some most => grow (advance text inner) (min (most - least) bound) started

/-- Whether the expression is found somewhere in a text. -/
def isFoundIn (expr : Expr) (text : List Char) : Bool :=
  (advance text expr (List.replicate (text.length + 1) true)).any id

/-- Whether an expression can take up characters. -/
def takesUp : Expr → Bool
  | .empty => false
  | .one _ => true
  | .look _ => false
  | .sequence first second => first.takesUp || second.takesUp
  | .either left right => left.takesUp || right.takesUp
  | .repetition _ most inner => most != some 0 && inner.takesUp

/-- The number of states that an expression unfolds to, at least. What takes up no characters is
not repeated. -/
def states : Expr → Nat
  | .empty => 0
  | .one _ => 1
  | .look _ => 1
  | .sequence first second => first.states + second.states
  | .either left right => left.states + right.states + 2
  | .repetition least most inner =>
    if !inner.takesUp then inner.states
    else match most with
      | none => (least + 1) * inner.states + 1
      | some most => most * inner.states + (most - least)

end Expr

end QuadGraph.Regex
