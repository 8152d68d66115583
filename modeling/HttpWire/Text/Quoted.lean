import HttpWire.Text.Printable
import HttpWire.Text.Extending
import HttpWire.Text.Split

/-!
# Text, octets and durations in messages

Messages show the text or the octets they complain about between double quotes.  In a text the
quote, the backslash and the common controls have short escapes, and a character that is not
printable or would be drawn onto its neighbour is shown by its code point.  In octets only the
quote and what is not visible ASCII is escaped; a backslash and a tab stand for themselves.

A duration of whole milliseconds is shown in seconds from one second on, with as many decimals as
it needs, and in milliseconds below; no time at all is shown as `0ns`.
-/

namespace HttpWire.Text

/-- One character as it is shown inside quotes. -/
def quotedChar (c : Char) : Text :=
  if c = '\x00' then ['\\', '0']
  else if c = '\t' then ['\\', 't']
  else if c = '\r' then ['\\', 'r']
  else if c = '\n' then ['\\', 'n']
  else if c = '\\' || c = '"' then ['\\', c]
  else if isExtending c || !isPrintable c then
    "\\u\x7b".toList ++ hexOfNat c.toNat ++ "\x7d".toList
  else [c]

/-- A text as messages show it. -/
def quoted (t : Text) : Text :=
  '"' :: t.flatMap quotedChar ++ ['"']

/-- The thousandths of a second as decimals, without trailing zeros. -/
def thousandths (n : Nat) : Text :=
  dropTrailing (· == '0')
    [Nat.digitChar (n / 100), Nat.digitChar (n / 10 % 10), Nat.digitChar (n % 10)]

/-- A number of milliseconds as messages show it. -/
def ofMillis (n : Nat) : Text :=
  if n = 0 then "0ns".toList
  else if n < 1000 then ofNat n ++ "ms".toList
  else if n % 1000 = 0 then ofNat (n / 1000) ++ "s".toList
  else ofNat (n / 1000) ++ '.' :: thousandths (n % 1000) ++ "s".toList

end HttpWire.Text

namespace HttpWire.Bytes

/-- One octet as it is shown inside quotes. -/
def quotedByte (b : UInt8) : Text :=
  if b = 0x22 then ['\\', '"']
  else if b = 0x09 || (0x20 ≤ b && b ≤ 0x7E) then [Char.ofNat b.toNat]
  else "\\x".toList ++ Text.hexOfNat b.toNat

/-- Octets as messages show them. -/
def quoted (bs : Bytes) : Text :=
  '"' :: bs.flatMap quotedByte ++ ['"']

end HttpWire.Bytes
