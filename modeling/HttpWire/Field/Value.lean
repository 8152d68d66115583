import HttpWire.Text.Utf8

/-!
# Field values

A field value is a string of octets without controls other than the tab.  Octets above the ASCII
range are kept as they are, but a value can be read as text only when it has none.
-/

namespace HttpWire

/-- The value of a header field. -/
structure FieldValue where
  bytes : Bytes
  valid : (bytes.all fun b => b == 0x09 || (0x20 ≤ b && b != 0x7F)) = true
deriving DecidableEq

namespace FieldValue

/-- Takes octets as a value. -/
def ofBytes? (bs : Bytes) : Option FieldValue :=
  if h : (bs.all fun b => b == 0x09 || (0x20 ≤ b && b != 0x7F)) = true then some ⟨bs, h⟩ else none

/-- Takes the UTF-8 form of a text as a value. -/
def ofText? (t : Text) : Option FieldValue :=
  ofBytes? (Utf8.encode t)

/-- The value as text, if it consists of tabs and visible ASCII with spaces. -/
def text? (v : FieldValue) : Option Text :=
  if v.bytes.all fun b => b == 0x09 || (0x20 ≤ b && b ≤ 0x7E) then Utf8.decodeAscii? v.bytes
  else none

/-- The value as text, with U+FFFD for whatever is no UTF-8. -/
def textLossy (v : FieldValue) : Text :=
  Utf8.decodeLossy v.bytes

end FieldValue

end HttpWire
