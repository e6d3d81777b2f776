/-!
# Blank characters and line breaks

Two fixed classes of characters. `isBlank` is the white space that surrounds words, `isLineBreak`
the characters that end a line of a script.
-/

namespace DialogueScript.Text

/-- The blank characters as closed ranges of code points, ascending and apart: the Unicode
property White_Space together with the four separators U+001C to U+001F. -/
def blankRanges : List (Nat × Nat) :=
  [(0x09, 0x0D), (0x1C, 0x20), (0x85, 0x85), (0xA0, 0xA0), (0x1680, 0x1680), (0x2000, 0x200A),
   (0x2028, 0x2029), (0x202F, 0x202F), (0x205F, 0x205F), (0x3000, 0x3000)]

def isBlank (c : Char) : Bool :=
  blankRanges.any fun r => r.1 ≤ c.toNat && c.toNat ≤ r.2

/-- The characters that end a line: the vertical movements of ASCII, the file, group and record
separators, next line, and the two Unicode separators of lines and paragraphs. -/
def lineBreaks : List Char :=
  ['\n', '\x0b', '\x0c', '\r', '\x1c', '\x1d', '\x1e', '\x85', '\u2028', '\u2029']

def isLineBreak (c : Char) : Bool := lineBreaks.contains c

end DialogueScript.Text
