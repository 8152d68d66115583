/-!
# Text and bytes

Messages arrive as bytes and are handled as text.  Both are lists: text is a list of Unicode
scalar values, bytes are a list of 8-bit words.  Lists keep every later definition a recursion on
the data, and a literal such as `"abc".toList` computes.
-/

namespace HttpWire

/-- A sequence of Unicode scalar values. -/
abbrev Text := List Char

/-- A sequence of octets. -/
abbrev Bytes := List UInt8

/-- The octet that ends a line. -/
def lineFeed : UInt8 := 0x0A

/-- The octet that may stand before the end of a line. -/
def carriageReturn : UInt8 := 0x0D

namespace Text

/-- The decimal digits of a number, without leading zeros. -/
def ofNat (n : Nat) : Text :=
  Nat.toDigits 10 n

/-- The lower-case hexadecimal digits of a number, without leading zeros. -/
def hexOfNat (n : Nat) : Text :=
  Nat.toDigits 16 n

/-- Whether a character is one of the ten ASCII digits. -/
def isDigit (c : Char) : Bool :=
  c.isDigit

/-- The number written by a nonempty sequence of ASCII digits. -/
def toNat? (t : Text) : Option Nat :=
  if t.isEmpty || !t.all isDigit then none else some (Nat.ofDigitChars 10 t 0)

/-- The value of a hexadecimal digit of either case. -/
def hexValue? (c : Char) : Option Nat :=
  if '0' ≤ c ∧ c ≤ '9' then some (c.toNat - '0'.toNat)
  else if 'a' ≤ c ∧ c ≤ 'f' then some (c.toNat - 'a'.toNat + 10)
  else if 'A' ≤ c ∧ c ≤ 'F' then some (c.toNat - 'A'.toNat + 10)
  else none

/-! ### Letter case

Names and tokens are compared without regard to the case of the ASCII letters.  No other letter
has its case changed or ignored. -/

/-- The text with its ASCII capitals made small. -/
def lower (t : Text) : Text :=
  t.map Char.toLower

/-- The text with its small ASCII letters made capitals. -/
def upper (t : Text) : Text :=
  t.map Char.toUpper

/-- Whether two texts agree up to the case of ASCII letters. -/
def sameIgnoringCase (a b : Text) : Bool :=
  lower a == lower b

end Text

end HttpWire
