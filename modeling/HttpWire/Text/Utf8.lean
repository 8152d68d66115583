import HttpWire.Text.Basic

/-!
# UTF-8

`encode` writes text as UTF-8.  `decodeLossy` reads any bytes at all: each longest prefix of a
sequence that cannot be completed becomes one replacement character.  The reader is an automaton
whose state is the sequence begun so far, with the number of octets it still owes and the range
its next octet has to lie in, so that overlong forms, surrogates and values beyond U+10FFFF are
turned away at their second octet.
-/

namespace HttpWire.Utf8

/-- The octets of one character. -/
def encodeChar (c : Char) : Bytes :=
  let n := c.toNat
  let tail (k : Nat) : UInt8 := UInt8.ofNat (0x80 + k % 64)
  if n < 0x80 then [UInt8.ofNat n]
  else if n < 0x800 then [UInt8.ofNat (0xC0 + n / 64), tail n]
  else if n < 0x10000 then [UInt8.ofNat (0xE0 + n / 4096), tail (n / 64), tail n]
  else [UInt8.ofNat (0xF0 + n / 262144), tail (n / 4096), tail (n / 64), tail n]

/-- The text in UTF-8. -/
def encode (t : Text) : Bytes :=
  t.flatMap encodeChar

/-- The number of octets of a text in UTF-8. -/
def size (t : Text) : Nat :=
  (encode t).length

/-- A sequence that has begun: the bits so far, the octets owed, and the range of the next one. -/
structure Pending where
  bits : Nat
  owed : Nat
  low : UInt8 := 0x80
  high : UInt8 := 0xBF

/-- The character that stands for octets that are no UTF-8. -/
def replacement : Char := '\uFFFD'

/-- The effect of an octet where a sequence may begin. -/
def lead (b : UInt8) : Text × Option Pending :=
  let n := b.toNat
  if n < 0x80 then ([Char.ofNat n], none)
  else if n < 0xC2 then ([replacement], none)
  else if n < 0xE0 then ([], some { bits := n - 0xC0, owed := 1 })
  else if n = 0xE0 then ([], some { bits := 0, owed := 2, low := 0xA0 })
  else if n = 0xED then ([], some { bits := 0xD, owed := 2, high := 0x9F })
  else if n < 0xF0 then ([], some { bits := n - 0xE0, owed := 2 })
  else if n = 0xF0 then ([], some { bits := 0, owed := 3, low := 0x90 })
  else if n < 0xF4 then ([], some { bits := n - 0xF0, owed := 3 })
  else if n = 0xF4 then ([], some { bits := 4, owed := 3, high := 0x8F })
  else ([replacement], none)

/-- The effect of one octet: the characters it completes and the sequence it leaves open. -/
def step (s : Option Pending) (b : UInt8) : Text × Option Pending :=
  match s with
  | none => lead b
  | some p =>
    if p.low ≤ b ∧ b ≤ p.high then
      let bits := p.bits * 64 + b.toNat % 64
      if p.owed ≤ 1 then ([Char.ofNat bits], none)
      else ([], some { bits, owed := p.owed - 1 })
    else (replacement :: (lead b).1, (lead b).2)

/-- The text read from the octets, starting in a given state. -/
def decodeFrom : Option Pending → Bytes → Text
  | none, [] => []
  | some _, [] => [replacement]
  | s, b :: bs => (step s b).1 ++ decodeFrom (step s b).2 bs

/-- The text of the octets, with U+FFFD for whatever is no UTF-8. -/
def decodeLossy (bs : Bytes) : Text :=
  decodeFrom none bs

/-- The text of octets that are all ASCII. -/
def decodeAscii? (bs : Bytes) : Option Text :=
  if bs.all (· < 0x80) then some (bs.map fun b => Char.ofNat b.toNat) else none

end HttpWire.Utf8
