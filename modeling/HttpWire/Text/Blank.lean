import HttpWire.Text.Split

/-!
# White space

White space is the Unicode property `White_Space`: twenty-five characters.  The zero-width space,
the byte order mark and the Mongolian vowel separator do not have it.
-/

namespace HttpWire.Text

/-- Whether a character has the property `White_Space`. -/
def isBlank (c : Char) : Bool :=
  let n := c.toNat
  (0x9 ≤ n && n ≤ 0xD) || n == 0x20 || n == 0x85 || n == 0xA0 || n == 0x1680 ||
    (0x2000 ≤ n && n ≤ 0x200A) || n == 0x2028 || n == 0x2029 || n == 0x202F || n == 0x205F ||
    n == 0x3000

/-- The text without white space at either end. -/
def trim (t : Text) : Text :=
  dropTrailing isBlank (t.dropWhile isBlank)

/-- Whether a character is a space or a tab. -/
def isSpaceOrTab (c : Char) : Bool :=
  c == ' ' || c == '\t'

/-- The text without spaces and tabs at its end. -/
def trimPadding (t : Text) : Text :=
  dropTrailing isSpaceOrTab t

end HttpWire.Text
