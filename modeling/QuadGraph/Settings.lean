import QuadGraph.Interchange

/-!
Settings of a program that queries graphs: the vocabulary with which every query starts, as it is
kept in a file. Parts that a file leaves out have their default.
-/
namespace QuadGraph

structure Settings where
  /-- Whether the standard vocabulary is known before the given one. -/
  useDefaultPrefixes : Bool
  prefixes : TextTable
  rules : TextTable
deriving DecidableEq

/-- Why settings cannot be had from a file. -/
inductive SettingsError
  /-- There is no such file, or it holds no text. -/
  | unreadable (file : String)
  /-- The text is not that of settings. -/
  | malformed (file : String)

def SettingsError.message : SettingsError → String
  | .unreadable file => "failed to read query config " ++ file
  | .malformed file => "failed to parse query config " ++ file

namespace Settings

def default : Settings :=
  ⟨true, ∅, ∅⟩

/-- The vocabulary that the settings describe. -/
def vocabulary (s : Settings) : Vocabulary :=
  let base := if s.useDefaultPrefixes then Vocabulary.standard else .empty
  { base with prefixes := base.prefixes ∪ s.prefixes, rules := base.rules ∪ s.rules }

def toJson (s : Settings) : Json :=
  .object [
    ("use_default_prefixes", .bool s.useDefaultPrefixes),
    ("prefixes", TextTable.toJson s.prefixes),
    ("rules", TextTable.toJson s.rules)]

def ofJson? (json : WrittenJson) : Option Settings := do
  match ← json.fields? ["use_default_prefixes", "prefixes", "rules"] true with
  | [useDefaultPrefixes, prefixes, rules] =>
    return {
      useDefaultPrefixes := ← useDefaultPrefixes.elim (some default.useDefaultPrefixes) (·.bool?)
      prefixes := ← prefixes.elim (some default.prefixes) TextTable.ofJson?
      rules := ← rules.elim (some default.rules) TextTable.ofJson? }
  | _ => none

/-- Reads settings from a text. -/
def read? (text : String) : Option Settings := do
  ofJson? (← WrittenJson.read? text)

/-- The settings in a file of a name; no content stands for no file. -/
def load (file : String) (content : Option ByteArray) : Except SettingsError Settings := do
  let some text := content.bind String.fromUTF8? | throw (.unreadable file)
  let some settings := read? text | throw (.malformed file)
  return settings

end Settings

end QuadGraph
