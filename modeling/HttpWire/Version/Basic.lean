import HttpWire.Text.Split
import HttpWire.Text.Quoted

/-!
# Protocol versions

A request line ends in a protocol token.  `HTTP/x.y` is version `x.y`, `HTTP/n` is `n.0`, with the
letters in any case, and the empty token is 0.9, the protocol that had no token.  Numbers are
decimal, may have leading zeros and go up to 65535.
-/

namespace HttpWire

/-- A protocol version. -/
structure Version where
  major : UInt16
  minor : UInt16
deriving DecidableEq

/-- A token that names no version. -/
structure VersionError where
  token : Text
deriving DecidableEq

/-- The wording for a token that names no version. -/
def VersionError.message (e : VersionError) : Text :=
  "the protocol token has a wrong format: ".toList ++ e.token.quoted

namespace Version

/-- A part of a version number. -/
def number? (digits : Text) : Option UInt16 :=
  match Text.toNat? digits with
  | none => none
  | some n => if n < 65536 then some (UInt16.ofNat n) else none

/-- The numbers behind the slash of a token. -/
def ofNumbers? (numbers : Text) : Option Version :=
  match splitFirst (· == '.') numbers with
  | none => (number? numbers).map fun major => ⟨major, 0⟩
  | some (before, _, after) =>
    match number? before, number? after with
    | some major, some minor => some ⟨major, minor⟩
    | _, _ => none

/-- Reads a protocol token. -/
def ofToken (token : Text) : Except VersionError Version :=
  if token.isEmpty then .ok ⟨0, 9⟩
  else if Text.sameIgnoringCase (token.take 5) "HTTP/".toList then
    match ofNumbers? (token.drop 5) with
    | some v => .ok v
    | none => .error ⟨token⟩
  else .error ⟨token⟩

/-- Major and minor number with a dot between. -/
def toText (v : Version) : Text :=
  Text.ofNat v.major.toNat ++ '.' :: Text.ofNat v.minor.toNat

/-- The versions of the protocol that have been published. -/
def published : List Version :=
  [⟨0, 9⟩, ⟨1, 0⟩, ⟨1, 1⟩, ⟨2, 0⟩, ⟨3, 0⟩]

/-- The full name of a published version. -/
def publishedName? (v : Version) : Option Text :=
  if v ∈ published then some ("HTTP/".toList ++ v.toText) else none

/-- Whether a version is no later than another. -/
def le (v w : Version) : Bool :=
  v.major < w.major || (v.major == w.major && v.minor ≤ w.minor)

end Version

end HttpWire
