import QuadGraph.Text.Category
import QuadGraph.Text.CharClass
import QuadGraph.Text.CharProperty
import QuadGraph.Text.Script

/-!
Classes of characters that have a name: groups of general categories, derived properties, and the
look-up of a class by its name or by the name of a property and a value.
-/
namespace QuadGraph.NamedClass

open CharClass

def casedLetter : CharClass :=
  tables [Category.uppercaseLetter, Category.lowercaseLetter, Category.titlecaseLetter]

def letter : CharClass :=
  .union casedLetter (tables [Category.modifierLetter, Category.otherLetter])

def mark : CharClass :=
  tables [Category.nonspacingMark, Category.spacingMark, Category.enclosingMark]

def number : CharClass :=
  tables [Category.decimalNumber, Category.letterNumber, Category.otherNumber]

def punctuation : CharClass :=
  tables [Category.connectorPunctuation, Category.dashPunctuation, Category.openPunctuation,
    Category.closePunctuation, Category.initialPunctuation, Category.finalPunctuation,
    Category.otherPunctuation]

def symbol : CharClass :=
  tables [Category.mathSymbol, Category.currencySymbol, Category.modifierSymbol,
    Category.otherSymbol]

def separator : CharClass :=
  tables [Category.spaceSeparator, Category.lineSeparator, Category.paragraphSeparator]

/-- The characters of a category other than the unassigned ones. -/
def assigned : CharClass :=
  unions [letter, mark, number, punctuation, symbol, separator,
    tables [Category.control, Category.format, Category.privateUse]]

def unassigned : CharClass :=
  .complement assigned

/-- Controls, format characters, characters for private use and unassigned ones. -/
def other : CharClass :=
  .union (tables [Category.control, Category.format, Category.privateUse]) unassigned

def alphabetic : CharClass :=
  unions [letter, tables [Category.letterNumber, CharProperty.moreAlphabetic]]

def lowercase : CharClass :=
  tables [Category.lowercaseLetter, CharProperty.moreLowercase]

def uppercase : CharClass :=
  tables [Category.uppercaseLetter, CharProperty.moreUppercase]

/-- Characters that extend the grapheme before them. -/
def extending : CharClass :=
  tables [Category.nonspacingMark, Category.enclosingMark, CharProperty.moreExtending]

/-- Characters of words: alphabetic ones, marks, digits, connectors and joiners. -/
def word : CharClass :=
  unions [alphabetic, mark,
    tables [Category.decimalNumber, Category.connectorPunctuation, CharProperty.joinControl]]

def digit : CharClass :=
  .table Category.decimalNumber

def space : CharClass :=
  .table CharProperty.whiteSpace

/-- Letters that may start an identifier. -/
def identifierStart : CharClass :=
  .difference
    (unions [letter, tables [Category.letterNumber, ⟨[(0x1885, 0x1886), (0x2118, 0x2118),
      (0x212e, 0x212e), (0x309b, 0x309c)]⟩]])
    (.single (Char.ofNat 0x2e2f))

/-- Characters that may go on in an identifier. -/
def identifierContinue : CharClass :=
  unions [identifierStart,
    tables [Category.nonspacingMark, Category.spacingMark, Category.decimalNumber,
      Category.connectorPunctuation,
      ⟨[(0xb7, 0xb7), (0x387, 0x387), (0x1369, 0x1371), (0x19da, 0x19da)]⟩]]

/-- Characters that normalization takes out of the continuations of identifiers. -/
def unstable : CharClass :=
  .table ⟨[(0x37a, 0x37a), (0x309b, 0x309c), (0xfc5e, 0xfc63), (0xfdfa, 0xfdfb), (0xfe70, 0xfe70),
    (0xfe72, 0xfe72), (0xfe74, 0xfe74), (0xfe76, 0xfe76), (0xfe78, 0xfe78), (0xfe7a, 0xfe7a),
    (0xfe7c, 0xfe7c), (0xfe7e, 0xfe7e)]⟩

/-- Characters that normalization takes out of the starts of identifiers only. -/
def unstableStart : CharClass :=
  .table ⟨[(0xe33, 0xe33), (0xeb3, 0xeb3), (0xff9e, 0xff9f)]⟩

/-- General categories and their groups, by their names. -/
def categories : List (List String × CharClass) := [
  (["l", "letter"], letter),
  (["lc", "casedletter"], casedLetter),
  (["lu", "uppercaseletter"], .table Category.uppercaseLetter),
  (["ll", "lowercaseletter"], .table Category.lowercaseLetter),
  (["lt", "titlecaseletter"], .table Category.titlecaseLetter),
  (["lm", "modifierletter"], .table Category.modifierLetter),
  (["lo", "otherletter"], .table Category.otherLetter),
  (["m", "mark", "combiningmark"], mark),
  (["mn", "nonspacingmark"], .table Category.nonspacingMark),
  (["mc", "spacingmark"], .table Category.spacingMark),
  (["me", "enclosingmark"], .table Category.enclosingMark),
  (["n", "number"], number),
  (["nd", "decimalnumber", "digit"], .table Category.decimalNumber),
  (["nl", "letternumber"], .table Category.letterNumber),
  (["no", "othernumber"], .table Category.otherNumber),
  (["p", "punctuation", "punct"], punctuation),
  (["pc", "connectorpunctuation"], .table Category.connectorPunctuation),
  (["pd", "dashpunctuation"], .table Category.dashPunctuation),
  (["ps", "openpunctuation"], .table Category.openPunctuation),
  (["pe", "closepunctuation"], .table Category.closePunctuation),
  (["pi", "initialpunctuation"], .table Category.initialPunctuation),
  (["pf", "finalpunctuation"], .table Category.finalPunctuation),
  (["po", "otherpunctuation"], .table Category.otherPunctuation),
  (["s", "symbol"], symbol),
  (["sm", "mathsymbol"], .table Category.mathSymbol),
  (["sc", "currencysymbol"], .table Category.currencySymbol),
  (["sk", "modifiersymbol"], .table Category.modifierSymbol),
  (["so", "othersymbol"], .table Category.otherSymbol),
  (["z", "separator"], separator),
  (["zs", "spaceseparator"], .table Category.spaceSeparator),
  (["zl", "lineseparator"], .table Category.lineSeparator),
  (["zp", "paragraphseparator"], .table Category.paragraphSeparator),
  (["c", "other"], other),
  (["cc", "control", "cntrl"], .table Category.control),
  (["cf", "format"], .table Category.format),
  (["cn", "unassigned"], unassigned),
  (["co", "privateuse"], .table Category.privateUse),
  (["cs", "surrogate"], .empty),
  (["any"], .all),
  (["assigned"], assigned),
  (["ascii"], .range 0 0x7f)]

/-- Binary properties, by their names. -/
def properties : List (List String × CharClass) := [
  (["alpha", "alphabetic"], alphabetic),
  (["lower", "lowercase"], lowercase),
  (["upper", "uppercase"], uppercase),
  (["cased"], unions [lowercase, uppercase, .table Category.titlecaseLetter]),
  (["math"], tables [Category.mathSymbol, CharProperty.moreMath]),
  (["grext", "graphemeextend"], extending),
  (["space", "wspace", "whitespace"], space),
  (["dash"], .table CharProperty.dash),
  (["ideo", "ideographic"], .table CharProperty.ideographic),
  (["uideo", "unifiedideograph"], .table CharProperty.unifiedIdeograph),
  (["radical"], .table CharProperty.radical),
  (["emoji"], .table CharProperty.emoji),
  (["epres", "emojipresentation"], .table CharProperty.emojiPresentation),
  (["emod", "emojimodifier"], .table CharProperty.emojiModifier),
  (["ebase", "emojimodifierbase"], .table CharProperty.emojiModifierBase),
  (["ecomp", "emojicomponent"], .table CharProperty.emojiComponent),
  (["extpict", "extendedpictographic"], .table CharProperty.pictographic),
  (["qmark", "quotationmark"], .table CharProperty.quotationMark),
  (["dia", "diacritic"], .table CharProperty.diacritic),
  (["ext", "extender"], .table CharProperty.extender),
  (["term", "terminalpunctuation"], .table CharProperty.terminalPunctuation),
  (["sterm", "sentenceterminal"], .table CharProperty.sentenceTerminal),
  (["vs", "variationselector"], .table CharProperty.variationSelector),
  (["sd", "softdotted"], .table CharProperty.softDotted),
  (["di", "defaultignorablecodepoint"], .table CharProperty.defaultIgnorable),
  (["bidic", "bidicontrol"], .table CharProperty.bidiControl),
  (["dep", "deprecated"], .table CharProperty.deprecated),
  (["loe", "logicalorderexception"], .table CharProperty.logicalOrderException),
  (["ri", "regionalindicator"], .table CharProperty.regionalIndicator),
  (["nchar", "noncharactercodepoint"], .table CharProperty.noncharacter),
  (["patws", "patternwhitespace"], .table CharProperty.patternWhiteSpace),
  (["patsyn", "patternsyntax"], .table CharProperty.patternMarks),
  (["hex", "hexdigit"], .table CharProperty.hexDigit),
  (["ahex", "asciihexdigit"], .table CharProperty.asciiHexDigit),
  (["joinc", "joincontrol"], .table CharProperty.joinControl),
  (["ids", "idstart"], identifierStart),
  (["idc", "idcontinue"], identifierContinue),
  (["xids", "xidstart"], .difference identifierStart (.union unstable unstableStart)),
  (["xidc", "xidcontinue"], .difference identifierContinue unstable)]

/-- The class that has the given name in a list. -/
def find? (name : String) (list : List (List String × CharClass)) : Option CharClass :=
  (list.find? fun entry => entry.1.contains name).map (·.2)

/-- The class of a script. -/
def script? (name : String) : Option CharClass :=
  if name = "zzzz" ∨ name = "unknown" then
    some (.complement (tables (Script.all.map (·.2))))
  else (Script.all.find? fun entry => entry.1.contains name).map fun entry => .table entry.2

/-- A name without what does not count: case, separators, an "is" at its start, and characters
outside ASCII. The name "isc" stands for itself. -/
def loose (name : String) : String :=
  let chars := name.toList
  let startsWithIs := (chars.take 2).map Char.toLower == ['i', 's']
  let kept := ((if startsWithIs then chars.drop 2 else chars).filter fun c =>
    c != ' ' && c != '_' && c != '-' && c.toNat < 128).map Char.toLower
  if startsWithIs && kept == ['c'] then "isc" else String.ofList kept

/-- The class of a name: a binary property, a general category or a script, in this order. The
names of three categories are also names of properties, and stand for the categories. -/
def named? (name : String) : Option CharClass :=
  let name := loose name
  let property := if name = "cf" ∨ name = "sc" ∨ name = "lc" then none else find? name properties
  property <|> find? name categories <|> script? name

/-- The class of the characters for which a property has a value. -/
def valued? (property value : String) : Option CharClass :=
  let property := loose property
  let value := loose value
  if property = "gc" ∨ property = "generalcategory" then find? value categories
  else if property = "sc" ∨ property = "script" then script? value
  else none

end QuadGraph.NamedClass
