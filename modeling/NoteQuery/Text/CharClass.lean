import NoteQuery.Text.Alphabetic
import NoteQuery.Text.Numeral
import NoteQuery.Text.Mark

namespace NoteQuery.Text

/-- Connector punctuation, general category Pc. -/
def connectors : Ranges :=
  ⟨[(0x5f, 0x5f), (0x203f, 0x2040), (0x2054, 0x2054), (0xfe33, 0xfe34), (0xfe4d, 0xfe4f),
    (0xff3f, 0xff3f)], by decide +kernel⟩

/-- The characters with the property Join_Control. -/
def joiners : Ranges :=
  ⟨[(0x200c, 0x200d)], by decide +kernel⟩

/-- The characters with the property White_Space. -/
def blanks : Ranges :=
  ⟨[(0x9, 0xd), (0x20, 0x20), (0x85, 0x85), (0xa0, 0xa0), (0x1680, 0x1680), (0x2000, 0x200a),
    (0x2028, 0x2029), (0x202f, 0x202f), (0x205f, 0x205f), (0x3000, 0x3000)], by decide +kernel⟩

/-- The letters, marks and decimal digits that version 17 of the Unicode standard added to those of
version 16. -/
def newcomers : Ranges :=
  ⟨[(0x88f, 0x88f), (0xc5c, 0xc5c), (0xcdc, 0xcdc), (0x1acf, 0x1add), (0x1ae0, 0x1aeb),
    (0xa7ce, 0xa7cf), (0xa7d2, 0xa7d2), (0xa7d4, 0xa7d4), (0xa7f1, 0xa7f1), (0x10940, 0x10959),
    (0x10ec5, 0x10ec7), (0x10efa, 0x10efb), (0x11b60, 0x11b67), (0x11db0, 0x11ddb),
    (0x11de0, 0x11de9), (0x16ea0, 0x16eb8), (0x16ebb, 0x16ed3), (0x16ff2, 0x16ff6),
    (0x187f8, 0x187ff), (0x18d09, 0x18d1e), (0x18d80, 0x18df2), (0x1e6c0, 0x1e6de),
    (0x1e6e0, 0x1e6f5), (0x1e6fe, 0x1e6ff), (0x2b73a, 0x2b73f), (0x2cea2, 0x2cead),
    (0x323b0, 0x33479)], by decide +kernel⟩

def isAlphanumeric (c : Char) : Bool :=
  alphabetic.contains c.toNat || decimals.contains c.toNat || otherNumerals.contains c.toNat

/-- What a regular expression counts as part of a word. Slugs and the edges of patterns go by
`isAlphanumeric` instead, and by the current version of the Unicode standard, where regular
expressions go by the one before. -/
def isWordChar (c : Char) : Bool :=
  !newcomers.contains c.toNat &&
    (alphabetic.contains c.toNat || marks.contains c.toNat || decimals.contains c.toNat ||
      connectors.contains c.toNat || joiners.contains c.toNat)

def isBlank (c : Char) : Bool := blanks.contains c.toNat

/-- What a regular expression takes for the end of a word: anything but a word character, and
the low line. -/
def isSeparator (c : Char) : Bool := !isWordChar c || c == '_'

end NoteQuery.Text
