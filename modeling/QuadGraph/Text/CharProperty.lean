import QuadGraph.Text.CharTable

/-!
Binary properties of characters that the general category does not settle. A table whose name says
more than a category holds only what the property adds to that category.
-/
namespace QuadGraph.CharProperty

/-- Alphabetic characters that are neither letters nor letter numbers. -/
def moreAlphabetic : CharTable := .ofGaps
  "345 0 26b d 2 0 2 1 2 1 2 0 49 a 31 c 2 6 11 0 66 6 5 3 3 1 5 0 24 0 1f f 67 a 66 1 4 8 2 2 2
   3 a8 b 4 6 7 13 37 1 3 e 2 1 6 2 b 1 1e 2 3b 6 3 1 3 1 b 0 b 1 1e 2 3b 4 5 1 3 1 5 0 1f 1 4 0
   c 2 3b 7 2 2 2 1 16 1 17 2 5 2 3b 6 3 1 3 1 a 1 b 1 1f 0 3c 4 4 2 2 2 b 0 29 4 3a 6 2 2 2 2 9
   1 c 1 1e 2 3b 6 2 2 2 2 9 1 c 1 10 0 d 3 3b 6 2 2 2 2 b 0 b 1 1e 2 4c 5 2 0 2 7 13 1 3e 0 3 6
   13 0 64 0 3 5 2 1 11 0 a4 12 a a 2 23 6f b 2 0 3 3 18 3 5 2 2 2 3 6 4 3 e b 2 0 b 3 675 1 1f 1
   1f 1 1f 1 43 12 bd 1 23 0 77 b 5 8 df 4 3a 9 3 13 4b 1 c 2 32 4 31 e 3d 2 1f 8 3 1 3a a 33 12
   1b1 d 6c2 33 8f7 1f 7875 7 23 1 163 0 9 0 18 4 59 1 33 f 2 0 3a 0 27 4 1d b 2e 3 31 b 26 0 44
   d d 0 9 1 2e 2 33 0 2 2 3 1 6 0 2d 4 6 0 ee 7 4f34 0 858 4 687 2 2 1 6 3 315 3 184 1 154 2 36
   d 2e 1 c 2 2e 8 a 0 3e 2 25 b 13 1 3a 2 31 c f 1 5d 8 3 0 7 0 3 0 9e 9 18 3 3b 6 3 1 3 1 b 0 b
   1 d2 c 2 2 6b 11 ee 6 3 6 1e 1 53 e 2 0 6b a 68 d 102 c f8 5 2 1 3 1 4 0 2 0 8f 6 3 5 5 0 1d 9
   2b 4 2 3 13 a 2f d 198 7 2 6 54 15 2 d 7b 5 4 0 2 1 2 2 2 0 4 0 43 4 2 1 2 3 15d 3 a 1 2 0 31
   6 4 2 500f 0 2 36 8 3 5e 1 4cad 0 2362 6 2 10 3 6 2 1 2 4 65 0 8b8 0 7e9 19 7 19 7 19"

/-- Lowercase characters that are not lowercase letters. -/
def moreLowercase : CharTable := .ofGaps
  "aa 0 10 0 1f6 8 8 1 1f 4 61 0 35 0 d82 0 c30 3e e 0 23 24 2b2 0 e 0 11 c d4 f 351 19 793 1
   7a1f 1 d3 0 82 2 4 1 363 3 a 0 5c17 0 3 2 2 29 2 8 d876 3d"

/-- Uppercase characters that are not uppercase letters. -/
def moreUppercase : CharTable := .ofGaps "2160 f 347 19 1cc61 19 7 19 7 19"

/-- Mathematical characters that are not mathematical symbols. -/
def moreMath : CharTable := .ofGaps
  "5e 0 372 2 3 0 1b 1 3 1 1c21 0 1c 2 c 0 21 3 19 1 f 1 42 c 5 0 4 1 5 4 13 0 5 0 3 9 2 0 4 4 7
   0 4 1 3 1 2 2 2 5 4 3 6 4 4c 4 3 3 2 1 2 1 2 0 2 4 3 1 5 1 5 11 3 1 2 0 2 6 2 0 7 1 123 3 a9 1
   2 0 19 0 12 0 1be 1 d 8 6 4 6 1 3 1 4 4 f 0 2 0 3 5 19 1 3a 0 2 0 1e 3 a 1 157 1 20 9 194 15
   40 3 21 1 d464 0 2 0 5 0 d4 0 2 0 d4c2 54 2 46 2 1 3 0 3 1 3 3 2 b 2 0 2 6 2 40 2 3 3 7 2 6 2
   1b 2 3 2 4 2 0 4 6 2 153 3 18 2 18 2 1e 2 18 2 1e 2 18 2 1e 2 18 2 1e 2 18 2 7 3 31 1601 3 2
   1a 2 1 2 0 3 0 2 9 2 3 2 0 2 0 7 0 5 0 2 0 2 0 2 2 2 1 2 0 3 0 2 0 2 0 2 0 2 0 2 1 2 0 3 3 2 6
   2 3 2 3 2 0 2 9 2 10 6 2 2 4 2 10"

/-- Characters that extend a grapheme and are neither nonspacing nor enclosing marks. -/
def moreExtending : CharTable := .ofGaps
  "9be 0 19 0 167 0 19 0 67 0 19 0 eb 0 13 1 68 0 19 0 78 0 10 0 d56 0 4d7 0 1022 1 cf6f 1 139f 0
   19 0 159 0 d 0 f2 0 381 0 b835 0 9 4 c2eae 5f"

/-- White space. -/
def whiteSpace : CharTable := .ofGaps "9 4 13 0 65 0 1b 0 15e0 0 980 a 1e 1 6 0 30 0 fa1 0"

/-- Dashes of all categories. -/
def dash : CharTable := .ofGaps
  "2d 0 55d 0 34 0 e42 0 406 0 80a 5 3e 0 28 0 10 0 187 0 c05 0 3 0 20 1 5 0 1d 0 1bf 0 14 0 70 0
   cd91 1 26 0 b 0 aa 0 fa0 0"

/-- Ideographs. -/
def ideographic : CharTable := .ofGaps
  "3006 1 1a 8 f 2 3c6 19bf 41 51ff 5901 16d 3 69 750b 0 1c 17f7 9 4d5 2b 8 2468 18b 4d05 a6df 21
   1039 7 dd 3 1681 f 1d30 10 26d 9a3 21d 5e3 134a 6 105f"

/-- Unified ideographs. -/
def unifiedIdeograph : CharTable := .ofGaps
  "3400 19bf 41 51ff 5a0f 1 2 0 2 1 b 0 2 0 2 1 3 2 105d7 a6df 21 1039 7 dd 3 1681 f 1d30 10 26d
   11a3 134a 6 105f"

/-- Radicals of ideographs. -/
def radical : CharTable := .ofGaps "2e80 19 2 58 d d5"

/-- Emoji. -/
def emoji : CharTable := .ofGaps
  "23 0 7 0 6 9 70 0 5 0 1f8e 0 d 0 d9 0 17 0 5b 5 10 1 170 1 d 0 a7 0 1a a 5 2 c8 0 e8 1 b 0 a 0
   3b 3 2 4 a 0 3 0 3 1 3 0 5 0 3 0 2 1 3 0 4 0 4 1 9 2 6 0 2 0 6 b c 1 3 0 2 1 2 0 13 0 3 1 13 5
   2 0 2 1 4 1 6 0 3 1 5 1 c 1 6 1 3 0 6 1 2 0 2 1 15 1 6 5 2 3 3 0 5 0 3 0 3 5 2 0 3 0 2 0 2 0 7
   0 4 0 7 0 b 1 10 0 3 0 5 0 2 0 5 2 2 0 c 1 31 2 a 0 f 0 f 0 175 1 1d0 2 14 1 34 0 5 0 4db 0 d
   0 25a 0 2 0 1bd6b 0 cb 0 a1 1 d 1 f 0 3 9 4c 19 2 1 18 0 15 0 3 8 16 1 af 21 3 6f 3 1 2 2 3 52
   3 2 2 106 2 3e c 5 2 17 8 1 3 7 d 0 3 3 3 0 5 1 e 1 3 0 9 1 a 0 6 2 d 2 9 2 3 0 2 0 5 0 7 0 4
   0 7 55 31 45 6 7 3 2 5 9 4 0 2 1 4 0 3 9 e4 b 5 0 11c 2e 2 9 2 b8 71 c 4 8 8 2d 2 6 9 d 5 8 8
   8"

/-- Emoji shown as pictures by themselves. -/
def emojiPresentation : CharTable := .ofGaps
  "231a 1 ce 3 4 0 3 0 20a 1 16 1 33 b 2c 0 14 0 e 0 9 1 12 1 6 1 9 0 6 0 16 0 8 1 2 0 5 0 3 0 8
   0 5 1 1d 0 24 0 2 0 5 2 2 0 3e 2 19 0 f 0 35c 1 34 0 5 0 1c4af 0 cb 0 bf 0 3 9 4c 19 2 0 19 0
   15 0 3 4 2 2 16 1 af 20 d 8 2 45 2 15 d 2a 5 4 d 10 4 0 4 46 2 0 2 ba 3 3e e 3 2 17 13 0 1b 1
   e 0 57 54 31 45 7 0 4 2 3 2 5 3 c 1 8 8 e4 b 5 0 11c 2e 2 9 2 b8 71 c 4 8 8 2d 2 6 9 d 5 8 8 8"

/-- Modifiers of emoji. -/
def emojiModifier : CharTable := .ofGaps "1f3fb 4"

/-- Emoji that take a modifier. -/
def emojiModifierBase : CharTable := .ofGaps
  "261d 0 dc 0 11 3 1cc78 0 3d 2 3 0 3 2 76 1 3 a 16 12 4 0 5 2 2 2 8 0 2 0 19 0 ca 1 5 0 16 0 5
   1 af 2 4 4 54 0 11 2 a 0 c 0 240 0 3 0 9 7 7 0 a 9 3 2 39 0 3e 1 2 1 2 0 12 2 2 c e6 2 2b 8"

/-- Parts of emoji sequences. -/
def emojiComponent : CharTable := .ofGaps "23 0 7 0 6 9 1fd4 0 d6 0 dd2c 0 f3d7 19 1fc 4 5b1 3
 c066d 5f"

/-- Pictographic characters, with those kept free for emoji. -/
def pictographic : CharTable := .ofGaps
  "a9 0 5 0 1f8e 0 d 0 d9 0 17 0 5b 5 10 1 170 1 d 0 60 0 47 0 1a a 5 2 c8 0 e8 1 b 0 a 0 3b 3 2
   5 2 b 2 71 b 75 3 a 2 0 2 0 7 0 4 0 7 0 b 1 10 0 3 0 5 0 2 0 5 2 2 0 c 4 2e 2 a 0 f 0 f 0 175
   1 1d0 2 14 1 34 0 5 0 4db 0 d 0 25a 0 2 0 1bd67 ff e 2 20 0 3d 5 d 1 f 0 3 9 13 38 1c e b 0 15
   0 3 8 2 3 a 1b1 6 13d 9 109 31 7f 75 b 56 2a d 3 39 7 b 5 29 7 1f 51 d 2e 2 9 2 1b8 101 3fd"

/-- Quotation marks. -/
def quotationMark : CharTable := .ofGaps "22 0 5 0 84 0 10 0 1f5d 7 1a 1 e08 0 1ca 3 e 2 ce22 3
 be 0 5 0 5b 1"

/-- Diacritics. -/
def diacritic : CharTable := .ofGaps
  "5e 0 2 0 48 0 7 0 5 0 3 1 1f8 9e 2 7 6 5 12 1 5 0 a 1 fe 4 d2 0 38 10 2 1a 2 0 2 1 2 0 87 7 5
   1 87 1 5 1 4 2 44 1a 5c a 3b a 23 1 7f 7 2a 9 11 1b 3e 0 11 0 4 3 1d 0 4b 0 11 0 6f 0 11 0 6f
   0 11 0 30 2 3d 0 11 0 8 0 78 0 6f 0 11 0 6f 0 11 0 6e 1 11 0 7d 0 7d 5 2 0 6c 0 e 4 4c 1 1c 0
   2 0 2 0 5 1 43 2 2 1 3f 0 71 0 2 1 29 1 5 4 1a 6 2 0 b 1 2c2 2 3b5 1 b4 a a 0 15c 2 13a 7 3 0
   31 e 3 a 69 0 10 0 27 8 37 1 8b 1 41 5 53 18 5 0 7 0 3 2 33 3e 5a b 26 a 1be 0 2 2 c 2 e 2 e 2
   e 1 cf1 2 13e 0 1fb 5 6a 3 60 0 7573 0 d 1 2 0 1d 1 53 1 f 21 67 2 6e 1 cb 0 1c 11 3a 3 25 0
   60 0 d 0 25 0 96 2 42 3 34 0 65 4 a 2 81 1 4f31 0 302 f 10f 0 2 0 30 0 2e 1 44 0 2fd 0 4a0 5 2
   29 2 8 32b 1 23c 5 1d6 2 47 a 32 3 c1 0 2a 0 49 1 79 1 3f 0 4d 0 a 2 69 1 b3 1 52 0 11 0 19 6
   4 4 ce 0 4 0 7c 1 fc 1 7f 0 77 1 74 0 10e 1 103 1 5 0 9d 0 54 0 13 0 52 0 1a6 0 103 0 2 1 52 0
   16b0 e 369b 4 3c 6 459 10 51 1 3fff 3 2 6 2 1 1f02 2d 3 16 221 2 4 5 9 7 3 6 1f 3 e83 3d c3 6
   178 0 3e 3 5e1 6 6e 2 2 2"

/-- Characters that extend the one before. -/
def extender : CharTable := .ofGaps
  "b7 0 219 1 36f 0 1ba 0 35b 0 2f1 0 80 0 944 0 39 0 264 0 18f 0 45 0 138a 0 2c 4 68 1 5e 2 6f17
   0 5f7 0 3c3 0 17 0 8a 0 6d 0 16 1 547c 0 811 1 bdb 0 269 2 4d0 0 50aa 1 49d 1 2 0 7159 1 807 2"

/-- Punctuation that ends a unit. -/
def terminalPunctuation : CharTable := .ofGaps
  "21 0 b 0 2 0 c 1 4 0 33f 0 9 0 202 0 3a 0 49 0 f 0 2 2 b5 0 2c a 2 0 ec 1 37 e 20 0 106 1 4f5
   1 ad 0 5 5 138 1 316 7 306 0 7d 2 48 1 9e 2 4 0 28 3 3 1 13b 1 163 3 af 1 2 2 1e 1 bd 4 3f 1
   3bd 1 a 2 de5 0 e 0 5 0 b 0 2 1 4 1 1ad 1 74fc 1 10e 2 e4 4 17f 1 57 1 60 0 98 2 94 2 80 0 11
   1 fa 0 5265 2 2 3 aa 0 b 0 2 0 c 1 4 0 42 0 3 0 43b 0 31 0 487 0 c8 0 137 1 99 5 45 5 5a 3 3b9
   4 2d 3 be 6 71 3 80 2 82 1 7 0 11 1 59 4 6d 0 1a2 2 d 1 167 3 4 e 6a 1 fa 2 206 0 2 0 fc 1 58
   1 5 1 19f 2 2e 0 286 1 4b 1 52c 4 45fa 1 86 0 42 2 b 0 353 1 4e07 0 1de8 3"

/-- Punctuation that ends a sentence. -/
def sentenceTerminal : CharTable := .ofGaps
  "21 0 d 0 11 0 54a 0 94 2 b5 0 2c 2 f7 0 3e 0 2 0 4 1 126 1 6e5 1 317 0 5 1 306 0 c7 1 cd 0 6 0
   13b 1 163 3 af 1 3 1 1e 1 bd 1 42 1 3bd 1 a 2 de5 0 e 0 17 1 1ae 0 74fd 0 10f 1 e4 0 4 0 17f 1
   57 1 60 0 99 1 94 2 91 1 fa 0 5267 0 4 1 aa 0 d 0 11 0 42 0 af5 1 4fe 4 2d 3 be 1 76 3 80 2 82
   1 7 0 11 1 59 1 2 1 6d 0 1a2 1 176 1 6 e 6a 1 fa 2 206 0 2 0 fc 1 58 1 1a5 1 2b5 1 4b 1 4b2a 1
   86 0 42 1 c 0 354 0 4e07 0 1de9 0"

/-- Variation selectors. -/
def variationSelector : CharTable := .ofGaps "180b 2 2 0 e5f1 f d02f1 ef"

/-- Characters with a dot that accents replace. -/
def softDotted : CharTable := .ofGaps
  "69 1 c5 0 11a 0 1f 0 35 0 15 0 141 0 63 0 2 0 190a 0 34 0 e 0 4 0 85 0 9e 0 1a6 0 d7 1 b33 0
   1a7a6 1 33 1 33 1 33 1 33 1 33 1 33 1 33 1 33 1 33 1 33 1 33 1 33 1 887 0 132 1 1b 0"

/-- Characters without a shape of their own. -/
def defaultIgnorable : CharTable := .ofGaps
  "ad 0 2a2 0 2cd 0 b43 1 654 1 56 4 7fc 4 1b 4 32 f 10f5 0 cc9c f f0 0 a1 0 50 8 bca8 3 14d0 7
   c2e86 fff"

/-- Controls of the writing direction. -/
def bidiControl : CharTable := .ofGaps "61c 0 19f2 1 1b 4 38 3"

/-- Characters no longer to be used. -/
def deprecated : CharTable := .ofGaps "149 0 52a 0 904 0 2 0 82a 1 8c6 5 2ba 1 ddcd7 0"

/-- Vowels written before their consonant. -/
def logicalOrderException : CharTable := .ofGaps "e40 4 7c 4 af1 2 3 0 90fb 1 3 0 2 1"

/-- Regional indicators. -/
def regionalIndicator : CharTable := .ofGaps "1f1e6 19"

/-- Code points that are never characters. -/
def noncharacter : CharTable := .ofGaps
  "fdd0 1f 20f 1 ffff 1 ffff 1 ffff 1 ffff 1 ffff 1 ffff 1 ffff 1 ffff 1 ffff 1 ffff 1 ffff 1
   ffff 1 ffff 1 ffff 1 ffff 1 ffff 1"

/-- White space in patterns. -/
def patternWhiteSpace : CharTable := .ofGaps "9 4 13 0 65 0 1f89 1 19 1"

/-- Characters reserved for patterns. -/
def patternMarks : CharTable := .ofGaps
  "21 e b 6 1b 3 2 0 1b 3 23 6 2 0 2 1 2 0 2 1 5 0 5 0 4 0 18 0 20 0 1f19 17 9 e 3 12 2 9 132 2cf
   a1 275 1f 46b 201 7f 182 2 5 18 10 0 cd0e 1 106 1"

/-- Hexadecimal digits, wide forms included. -/
def hexDigit : CharTable := .ofGaps "30 9 8 5 1b 5 feaa 9 8 5 1b 5"

/-- Hexadecimal digits. -/
def asciiHexDigit : CharTable := .ofGaps "30 9 8 5 1b 5"

/-- Controls of joining. -/
def joinControl : CharTable := .ofGaps "200c 1"

end QuadGraph.CharProperty
