import QuadGraph.Regex.Pattern
import QuadGraph.Text.NamedClass

/-!
Reading the pattern of a regular expression. The readers take the rest of the text and give back
what they read with the text behind it; none stands for a pattern that is not well formed. In
extended mode blanks and comments are passed over between the parts of a pattern.
-/
namespace QuadGraph.Regex

def isBlank (c : Char) : Bool :=
  NamedClass.space.contains c

/-- Passes over blanks and comments; a comment runs from a number sign to the end of its line. -/
def skipComments (inComment : Bool) : List Char → List Char
  | [] => []
  | c :: rest =>
    if inComment then skipComments (c != '\n') rest
    else if isBlank c then skipComments false rest
    else if c = '#' then skipComments true rest
    else c :: rest

/-- Passes over blanks and comments in extended mode. -/
def skip (extended : Bool) (text : List Char) : List Char :=
  if extended then skipComments false text else text

/-- The next character that counts. In extended mode blanks do not count, nor does one number
sign. -/
def peek (extended : Bool) (text : List Char) : Option Char :=
  if !extended then text.head?
  else match text.dropWhile isBlank with
    | '#' :: rest => (rest.dropWhile isBlank).head?
    | rest => rest.head?

/-- Characters with a meaning somewhere in a pattern. -/
def isSpecial (c : Char) : Bool :=
  "\\.+*?()|[]\x7b\x7d^$#&-~".toList.contains c

/-- Characters that stand for themselves behind a backslash. -/
def isEscapable (c : Char) : Bool :=
  isSpecial c || (c.toNat < 128 && !c.isAlphanum && c != '<' && c != '>')

def isHexDigit (c : Char) : Bool :=
  c.isDigit || ('a' ≤ c && c ≤ 'f') || ('A' ≤ c && c ≤ 'F')

def hexValue (digits : List Char) : Nat :=
  digits.foldl (fun n c =>
    n * 16 + if c.isDigit then c.toNat - 48 else c.toLower.toNat - 87) 0

/-- The character of a code point, unless it is a surrogate or out of range. -/
def charOf? (code : Nat) : Option Char :=
  if code < 0xd800 ∨ (0xdfff < code ∧ code < 0x110000) then some (Char.ofNat code) else none

/-- Reads a given number of hexadecimal digits. -/
def hexDigits (extended : Bool) : Nat → List Char → Option (List Char × List Char)
  | 0, text => some ([], text)
  | n + 1, c :: rest => do
    guard (isHexDigit c)
    let (digits, rest) ← hexDigits extended n (skip extended rest)
    return (c :: digits, rest)
  | _ + 1, [] => none

/-- Reads characters up to a closing brace. The first argument bounds their number. -/
def untilBrace (extended : Bool) : Nat → List Char → Option (List Char × List Char)
  | 0, _ => none
  | fuel + 1, text =>
    match skip extended text with
    | [] => none
    | '\x7d' :: rest => some ([], rest)
    | c :: rest => (untilBrace extended fuel rest).map fun (inside, rest) => (c :: inside, rest)

/-- Reads the digits of an escape by code point, of the given length or in braces. -/
def hexEscape (extended : Bool) (length : Nat) (text : List Char) :
    Option (Literal × List Char) :=
  match skip extended text with
  | '\x7b' :: rest => do
    let (digits, rest) ← untilBrace extended (rest.length + 1) rest
    guard (!digits.isEmpty && digits.all isHexDigit)
    return (⟨← charOf? (hexValue digits), false⟩, skip extended rest)
  | rest => do
    let (digits, rest) ← hexDigits extended length rest
    return (⟨← charOf? (hexValue digits), length == 2⟩, rest)

/-- The parts of a text before and after the first place where another text stands. -/
def splitAt? (separator : List Char) : List Char → Option (List Char × List Char)
  | [] => none
  | c :: rest =>
    match separator.isPrefixOf? (c :: rest) with
    | some after => some ([], after)
    | none => (splitAt? separator rest).map fun (before, after) => (c :: before, after)

/-- The class of what stands in the braces of a class by name, and whether it is negated there. -/
def classOf? (inside : List Char) : Option (CharClass × Bool) :=
  let valued (parts : List Char × List Char) :=
    NamedClass.valued? (String.ofList parts.1) (String.ofList parts.2)
  match splitAt? ['!', '='] inside, splitAt? [':'] inside, splitAt? ['='] inside with
  | some parts, _, _ => (valued parts).map fun members => (members, true)
  | none, some parts, _ => (valued parts).map fun members => (members, false)
  | none, none, some parts => (valued parts).map fun members => (members, false)
  | none, none, none => (NamedClass.named? (String.ofList inside)).map fun members =>
    (members, false)

/-- Reads the name of a class, one letter or in braces. -/
def namedClass (extended negated : Bool) (text : List Char) : Option (ClassSet × List Char) :=
  match skip extended text with
  | '\x7b' :: rest => do
    let (inside, rest) ← untilBrace extended (rest.length + 1) rest
    let (members, flipped) ← classOf? inside
    return (.named members (negated != flipped), rest)
  | c :: rest => do
    guard (c ≠ '\\')
    let members ← NamedClass.named? (String.ofList [c])
    return (.named members negated, skip extended rest)
  | [] => none

/-- Reads what may follow a word boundary in braces: the name of a special boundary. Braces that
do not start with a name belong to a repetition. -/
def wordBoundary (extended : Bool) (text : List Char) : Option (Assertion × List Char) :=
  let isNameChar (c : Char) := c.isAlpha || c = '-'
  match text with
  | '\x7b' :: inside =>
    match skip extended inside with
    | [] => none
    | c :: rest =>
      if !isNameChar c then some (.wordBoundary, text)
      else do
        let (name, rest) ← untilBrace extended (rest.length + 2) (c :: rest)
        if name = "start".toList then some (.wordStart, rest)
        else if name = "end".toList then some (.wordEnd, rest)
        else if name = "start-half".toList then some (.wordStartHalf, rest)
        else if name = "end-half".toList then some (.wordEndHalf, rest)
        else none
  | _ => some (.wordBoundary, text)

/-- Reads an escape from behind its backslash. -/
def escape (extended : Bool) : List Char → Option (Pattern × List Char)
  | [] => none
  | c :: rest =>
    let literal (char : Char) : Option (Pattern × List Char) :=
      some (.literal ⟨char, false⟩, rest)
    let hex (length : Nat) := (hexEscape extended length rest).map fun (char, rest) =>
      (Pattern.literal char, rest)
    let short (kind : ShortClass) (negated : Bool) : Option (Pattern × List Char) :=
      some (.set (.short kind negated), rest)
    let named (negated : Bool) := (namedClass extended negated rest).map fun (set, rest) =>
      (Pattern.set set, rest)
    let assertion (kind : Assertion) : Option (Pattern × List Char) := some (.assertion kind, rest)
    if isEscapable c then literal c
    else match c with
      | 'x' => hex 2
      | 'u' => hex 4
      | 'U' => hex 8
      | 'p' => named false
      | 'P' => named true
      | 'd' => short .digit false
      | 'D' => short .digit true
      | 's' => short .space false
      | 'S' => short .space true
      | 'w' => short .word false
      | 'W' => short .word true
      | 'a' => literal '\x07'
      | 'f' => literal '\x0c'
      | 't' => literal '\t'
      | 'n' => literal '\n'
      | 'r' => literal '\r'
      | 'v' => literal '\x0b'
      | 'A' => assertion .textStart
      | 'z' => assertion .textEnd
      | 'b' => (wordBoundary extended rest).map fun (kind, rest) => (.assertion kind, rest)
      | 'B' => assertion .notWordBoundary
      | '<' => assertion .wordStart
      | '>' => assertion .wordEnd
      | _ => none

/-- The classes of ASCII characters that have a name inside brackets. -/
def asciiClass? (name : String) : Option CharClass :=
  let digit := CharClass.range 48 57
  let upper := CharClass.range 65 90
  let lower := CharClass.range 97 122
  let alpha := CharClass.union upper lower
  let classes : List (String × CharClass) := [
    ("alnum", .union alpha digit),
    ("alpha", alpha),
    ("ascii", .range 0 127),
    ("blank", .union (.single '\t') (.single ' ')),
    ("cntrl", .union (.range 0 31) (.range 127 127)),
    ("digit", digit),
    ("graph", .range 33 126),
    ("lower", lower),
    ("print", .range 32 126),
    ("punct", CharClass.unions [.range 33 47, .range 58 64, .range 91 96, .range 123 126]),
    ("space", .union (.range 9 13) (.single ' ')),
    ("upper", upper),
    ("word", CharClass.unions [alpha, digit, .single '_']),
    ("xdigit", CharClass.unions [digit, .range 65 70, .range 97 102])]
  classes.lookup name

/-- Reads an ASCII class from behind the bracket and colon that open it, if it is one. -/
def asciiClass (text : List Char) : Option (ClassSet × List Char) := do
  let (negated, text) := match text with
    | '^' :: rest => (true, rest)
    | rest => (false, rest)
  let rest ← [':', ']'].isPrefixOf? (text.dropWhile (· ≠ ':'))
  let members ← asciiClass? (String.ofList (text.takeWhile (· ≠ ':')))
  return (.ascii members negated, rest)

/-- Reads one item of a class, which may be the end of a range. -/
def classItem (extended : Bool) : List Char → Option (ClassSet × List Char)
  | [] => none
  | '\\' :: rest => do
    match ← escape extended rest with
    | (.literal literal, rest) => return (.single literal, rest)
    | (.set set, rest) => return (set, rest)
    | _ => none
  | c :: rest => some (.single ⟨c, false⟩, rest)

/-- Reads an item or a range. A minus sign before the closing bracket or before another minus sign
makes no range. -/
def classRange (extended : Bool) (text : List Char) : Option (ClassSet × List Char) := do
  let (low, rest) ← classItem extended text
  match skip extended rest with
  | [] => none
  | '-' :: rest =>
    if peek extended rest = some ']' ∨ peek extended rest = some '-' then return (low, '-' :: rest)
    else
      let (high, rest) ← classItem extended (skip extended rest)
      match low, high with
      | .single a, .single b =>
        if a.char ≤ b.char then return (.range a b, rest) else none
      | _, _ => none
  | rest => return (low, rest)

/-- Reads minus signs at the front, which stand for themselves. -/
def leadingDashes (extended : Bool) : Nat → List Char → List ClassSet × List Char
  | 0, text => ([], text)
  | fuel + 1, text =>
    match text with
    | '-' :: rest =>
      let (items, rest) := leadingDashes extended fuel (skip extended rest)
      (.single ⟨'-', false⟩ :: items, rest)
    | _ => ([], text)

/-- Joins a finished operand to the operation that waits for it. -/
def joinOperand (waiting : Option (SetOperator × ClassSet)) (items : List ClassSet) : ClassSet :=
  let operand := ClassSet.ofItems items.reverse
  match waiting with
  | none => operand
  | some (operator, left) => .operation operator left operand

mutual

/-- Reads a class from behind its opening bracket. The first argument bounds the readings. -/
def bracket (extended : Bool) : Nat → List Char → Option (ClassSet × List Char)
  | 0, _ => none
  | fuel + 1, text =>
    let text := skip extended text
    let (negated, text) := match text with
      | '^' :: rest => (true, skip extended rest)
      | rest => (false, rest)
    let (items, text) := leadingDashes extended text.length text
    let (items, text) := match items, text with
      | [], ']' :: rest => ([ClassSet.single ⟨']', false⟩], skip extended rest)
      | items, text => (items.reverse, text)
    (classItems extended fuel none items text).map fun (inner, rest) =>
      (.bracketed inner negated, rest)

/-- Reads the items and operations of a class up to its closing bracket. -/
def classItems (extended : Bool) : Nat → Option (SetOperator × ClassSet) → List ClassSet →
    List Char → Option (ClassSet × List Char)
  | 0, _, _, _ => none
  | fuel + 1, waiting, items, text =>
    let operation (operator : SetOperator) (rest : List Char) :=
      classItems extended fuel (some (operator, joinOperand waiting items)) [] rest
    match skip extended text with
    | [] => none
    | ']' :: rest => some (joinOperand waiting items, rest)
    | '[' :: rest =>
      let ascii := match rest with
        | ':' :: rest => asciiClass rest
        | _ => none
      match ascii with
      | some (item, rest) => classItems extended fuel waiting (item :: items) rest
      | none => do
        let (item, rest) ← bracket extended fuel rest
        classItems extended fuel waiting (item :: items) rest
    | '&' :: '&' :: rest => operation .intersection rest
    | '-' :: '-' :: rest => operation .difference rest
    | '~' :: '~' :: rest => operation .symmetricDifference rest
    | rest => do
      let (item, rest) ← classRange extended rest
      classItems extended fuel waiting (item :: items) rest

end

/-- Reads the digits of a decimal number, blanks around it passed over. -/
def decimalDigits (extended : Bool) : Nat → List Char → List Char × List Char
  | 0, text => ([], text)
  | fuel + 1, text =>
    match text with
    | c :: rest =>
      if c.isDigit then
        let (digits, rest) := decimalDigits extended fuel (skip extended rest)
        (c :: digits, rest)
      else ([], text)
    | [] => ([], [])

/-- Reads a count below 2 ^ 32. -/
def count (extended : Bool) (text : List Char) : Option (Nat × List Char) :=
  let text := text.dropWhile isBlank
  let (digits, rest) := decimalDigits extended text.length text
  let n := digits.foldl (fun n c => n * 10 + (c.toNat - 48)) 0
  if digits.isEmpty || decide (UInt32.size ≤ n) then none else some (n, rest.dropWhile isBlank)

/-- Reads the bounds of a repetition from behind the opening brace. -/
def bounds (extended : Bool) (text : List Char) :
    Option (Nat × Option Nat × List Char) := do
  let (least, rest) ← count extended (skip extended text)
  let (most, rest) ← match rest with
    | ',' :: rest =>
      match skip extended rest with
      | [] => none
      | '\x7d' :: rest => some (none, '\x7d' :: rest)
      | rest => (count extended rest).map fun (most, rest) => (some most, rest)
    | rest => some (some least, rest)
  match rest with
  | '\x7d' :: rest =>
    guard (most.all fun most => decide (least ≤ most))
    let rest := match skip extended rest with
      | '?' :: rest => rest
      | rest => rest
    return (least, most, rest)
  | _ => none

/-- The mode of a letter. -/
def flag? (c : Char) : Option Flag :=
  [('i', Flag.caseless), ('m', .multiLine), ('s', .dotAll), ('U', .swapGreed), ('u', .unicode),
    ('R', .crlf), ('x', .extended)].lookup c

/-- Reads switches of modes up to a colon or a closing parenthesis. A mode is switched once; a
minus sign stands once and before a mode. -/
def switches (off dangling : Bool) (done : Switches) :
    List Char → Option (Switches × List Char)
  | [] => none
  | c :: rest =>
    if c = ':' ∨ c = ')' then if dangling then none else some (done.reverse, c :: rest)
    else if c = '-' then if off then none else switches true true done rest
    else do
      let flag ← flag? c
      guard (!(done.map Prod.fst).contains flag)
      switches off false ((flag, !off) :: done) rest

/-- Characters of the name of a group. -/
def isNameChar (first : Bool) (c : Char) : Bool :=
  c = '_' || NamedClass.alphabetic.contains c ||
    (!first && (c = '.' || c = '[' || c = ']' || NamedClass.number.contains c))

/-- What stands behind an opening parenthesis. -/
inductive Opening
  /-- Switches for the rest of the group around them. -/
  | setting (switches : Switches)
  /-- A group, with switches for its inside and perhaps a name. -/
  | group (switches : Switches) (name : Option (List Char))

/-- Reads what stands behind an opening parenthesis. Assertions about what stands around are not
supported. -/
def opening (extended : Bool) (text : List Char) : Option (Opening × List Char) :=
  let named (rest : List Char) : Option (Opening × List Char) := do
    let name := rest.takeWhile (· ≠ '>')
    guard (!name.isEmpty && isNameChar true (name.headD ' ') &&
      name.all (isNameChar false))
    let rest ← ['>'].isPrefixOf? (rest.dropWhile (· ≠ '>'))
    return (.group [] (some name), rest)
  match skip extended text with
  | '?' :: 'P' :: '<' :: rest => named rest
  | '?' :: '<' :: rest =>
    if rest.head? = some '=' ∨ rest.head? = some '!' then none else named rest
  | '?' :: '=' :: _ => none
  | '?' :: '!' :: _ => none
  | '?' :: rest => do
    match ← switches false false [] rest with
    | (set, ':' :: rest) => return (.group set none, rest)
    | ([], _ :: _) => none
    | (set, _ :: rest) => return (.setting set, rest)
    | (_, []) => none
  | rest => some (.group [] none, rest)

/-- What a reading carries along: whether extended mode is on, and the names of groups so far. -/
structure Progress where
  extended : Bool
  names : List (List Char)

/-- The value that switches give to extended mode, if they set it. -/
def extendedMode? (switches : Switches) : Option Bool :=
  switches.lookup .extended

/-- Puts a repetition on the last item. Switches and nothing at all cannot be repeated. -/
def repeatLast (least : Nat) (most : Option Nat) : List Pattern → Option (List Pattern)
  | [] => none
  | .empty :: _ => none
  | .switches _ :: _ => none
  | last :: done => some (.repetition least most last :: done)

/-- Passes over the mark of a repetition that takes as little as it can. -/
def skipLazy : List Char → List Char
  | '?' :: rest => rest
  | rest => rest

mutual

/-- Reads the branches of an alternation up to the end of its group or of the text. -/
def branches : Nat → Progress → List Char →
    Option (List Pattern × Progress × List Char)
  | 0, _, _ => none
  | fuel + 1, progress, text => do
    let (items, progress, rest) ← branch fuel progress [] text
    let first := Pattern.ofItems items.reverse
    match rest with
    | '|' :: rest =>
      let (others, progress, rest) ← branches fuel progress rest
      return (first :: others, progress, rest)
    | rest => return ([first], progress, rest)

/-- Reads the items of a branch, the last one first. -/
def branch : Nat → Progress → List Pattern → List Char →
    Option (List Pattern × Progress × List Char)
  | 0, _, _, _ => none
  | fuel + 1, progress, done, text =>
    let next (item : Pattern) (rest : List Char) := branch fuel progress (item :: done) rest
    let repeated (least : Nat) (most : Option Nat) (rest : List Char) := do
      branch fuel progress (← repeatLast least most done) rest
    match skip progress.extended text with
    | [] => some (done, progress, [])
    | ')' :: rest => some (done, progress, ')' :: rest)
    | '|' :: rest => some (done, progress, '|' :: rest)
    | '(' :: rest => do
      match ← opening progress.extended rest with
      | (.setting set, rest) =>
        let extended := (extendedMode? set).getD progress.extended
        branch fuel { progress with extended } (.switches set :: done) rest
      | (.group set name, rest) =>
        guard (!(name.any progress.names.contains))
        let inside : Progress :=
          { extended := (extendedMode? set).getD progress.extended
            names := name.toList ++ progress.names }
        let (inner, after, rest) ← branches fuel inside rest
        match rest with
        | ')' :: rest =>
          branch fuel { after with extended := progress.extended }
            (.group set (Pattern.ofBranches inner) :: done) rest
        | _ => none
    | '[' :: rest => do
      let (set, rest) ← bracket progress.extended (2 * rest.length + 2) rest
      next (.set set) rest
    | '?' :: rest => repeated 0 (some 1) (skipLazy rest)
    | '*' :: rest => repeated 0 none (skipLazy rest)
    | '+' :: rest => repeated 1 none (skipLazy rest)
    | '\x7b' :: rest => do
      let (least, most, rest) ← bounds progress.extended rest
      repeated least most rest
    | '\\' :: rest => do
      let (item, rest) ← escape progress.extended rest
      next item rest
    | '.' :: rest => next .dot rest
    | '^' :: rest => next (.assertion .lineStart) rest
    | '$' :: rest => next (.assertion .lineEnd) rest
    | c :: rest => next (.literal ⟨c, false⟩) rest

end

/-- Reads a whole pattern, nested at most 250 levels. -/
def Pattern.read? (text : String) : Option Pattern := do
  let chars := text.toList
  let (inner, _, rest) ← branches (2 * chars.length + 2) ⟨false, []⟩ chars
  guard rest.isEmpty
  let pattern := Pattern.ofBranches inner
  guard (pattern.depth ≤ 250)
  return pattern

end QuadGraph.Regex
