import HttpWire.Text.Split
import HttpWire.Text.Utf8

/-!
# Form parameters

Query strings and form bodies hold name–value pairs as `name=value&name=value`.  In a half, `+` is
a space and `%` with two hexadecimal digits an octet; the octets are UTF-8.  Pairs keep their
order; a look-up ignores letter case and finds the last pair of the name.
-/

namespace HttpWire

/-- Name–value pairs in their order. -/
structure FormPairs where
  pairs : List (Text × Text) := []
deriving DecidableEq

namespace FormPairs

/-! ### Reading -/

/-- The octet written by two hexadecimal digits. -/
def hexPair? (high low : UInt8) : Option UInt8 :=
  match Text.hexValue? (Char.ofNat high.toNat), Text.hexValue? (Char.ofNat low.toNat) with
  | some h, some l => some (UInt8.ofNat (16 * h + l))
  | _, _ => none

/-- A plus sign made a space. -/
def plusToSpace (b : UInt8) : UInt8 :=
  if b = 0x2B then 0x20 else b

/-- The octets that an encoded half stands for.  A percent sign without two hexadecimal digits
behind it stands for itself. -/
def decodeOctets : Bytes → Bytes
  | b :: high :: low :: rest =>
    match if b = 0x25 then hexPair? high low else none with
    | some octet => octet :: decodeOctets rest
    | none => plusToSpace b :: decodeOctets (high :: low :: rest)
  | short => short.map plusToSpace

/-- The text that an encoded half stands for. -/
def decodeHalf (bs : Bytes) : Text :=
  Utf8.decodeLossy (decodeOctets bs)

/-- Reads pairs.  Empty pieces between separators are no pairs, and a piece without `=` is a name
with an empty value. -/
def ofBytes (bs : Bytes) : FormPairs :=
  let pieces := (bs.splitOn 0x26).filter (!·.isEmpty)
  ⟨pieces.map fun piece =>
    let (name, value) := cutFirst (· == 0x3D) piece
    (decodeHalf name, decodeHalf value)⟩

/-! ### Writing -/

/-- Whether an octet is written as itself. -/
def isPlain (c : Char) : Bool :=
  c.isAlphanum || "*-._".toList.contains c

/-- A hexadecimal digit as a capital. -/
def hexDigit (n : Nat) : Char :=
  (Nat.digitChar n).toUpper

/-- One octet of an encoded half. -/
def encodeOctet (b : UInt8) : Text :=
  let c := Char.ofNat b.toNat
  if isPlain c then [c]
  else if b = 0x20 then ['+']
  else ['%', hexDigit (b.toNat / 16), hexDigit (b.toNat % 16)]

/-- A text as an encoded half. -/
def encodeHalf (t : Text) : Text :=
  (Utf8.encode t).flatMap encodeOctet

/-- The pairs in encoded form. -/
def toText (p : FormPairs) : Text :=
  ['&'].intercalate (p.pairs.map fun (name, value) => encodeHalf name ++ '=' :: encodeHalf value)

/-! ### Looking up -/

/-- All values of a name, in order. -/
def getAll (p : FormPairs) (name : Text) : List Text :=
  (p.pairs.filter fun pair => Text.sameIgnoringCase pair.1 name).map (·.2)

/-- The last value of a name. -/
def get? (p : FormPairs) (name : Text) : Option Text :=
  (p.getAll name).getLast?

/-- Whether there is a pair of that name. -/
def contains (p : FormPairs) (name : Text) : Bool :=
  (p.get? name).isSome

end FormPairs

end HttpWire
