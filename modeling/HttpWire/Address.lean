import HttpWire.Text.Split

/-!
# Addresses

An address is a host and a port.  A host of the older kind is four octets, written in decimal with
dots between them; one of the newer kind is eight groups of sixteen bits, written in hexadecimal
with colons between them and put in brackets before a port.  One gap `::` may stand for a run of
groups that are zero, the last two groups may be written as four octets, and a zone may follow
behind a percent sign.

Many texts name one address, and `Address.toText` writes one of them: groups without leading zeros,
the gap for the longest run of at least two zeros, the first of equally long ones, and the octets of
an older host only where it is mapped into the newer kind.
-/

namespace HttpWire

/-- A host, by its number. -/
inductive Host
  | four (a b c d : UInt8)
  | six (groups : List UInt16) (eight : groups.length = 8) (zone : UInt32)
deriving DecidableEq

/-- A host and a port. -/
structure Address where
  host : Host
  port : UInt16
deriving DecidableEq

namespace Host

/-! ### Reading -/

/-- An octet in decimal, without leading zeros. -/
def octet? (t : Text) : Option UInt8 :=
  if t.length > 1 && t.head? == some '0' then none
  else
    match Text.toNat? t with
    | none => none
    | some n => if n < UInt8.size then some (UInt8.ofNat n) else none

/-- Four octets with dots between them. -/
def octets? (t : Text) : Option (UInt8 × UInt8 × UInt8 × UInt8) :=
  match (t.splitOn '.').mapM octet? with
  | some [a, b, c, d] => some (a, b, c, d)
  | _ => none

/-- A group of one to four hexadecimal digits. -/
def group? (t : Text) : Option UInt16 :=
  if t.isEmpty || t.length > 4 then none
  else (t.mapM Text.hexValue?).map fun digits =>
    UInt16.ofNat (digits.foldl (fun n digit => 16 * n + digit) 0)

/-- Two octets as a group. -/
def pair (high low : UInt8) : UInt16 :=
  UInt16.ofNat (256 * high.toNat + low.toNat)

/-- The groups of a piece between colons: one, or two written as four octets where that is
allowed. -/
def pieceGroups? (octetsAllowed : Bool) (t : Text) : Option (List UInt16) :=
  match group? t with
  | some g => some [g]
  | none =>
    if octetsAllowed then (octets? t).map fun (a, b, c, d) => [pair a b, pair c d] else none

/-- The groups of all pieces; only the last piece may be four octets, and only if they are
allowed. -/
def allGroups? (octetsAllowed : Bool) : List Text → Option (List UInt16)
  | [] => some []
  | [last] => pieceGroups? octetsAllowed last
  | piece :: rest =>
    match pieceGroups? false piece, allGroups? octetsAllowed rest with
    | some front, some back => some (front ++ back)
    | _, _ => none

/-- The pieces between colons, none of an empty text. -/
def pieces (t : Text) : List Text :=
  if t.isEmpty then [] else t.splitOn ':'

/-- Cuts a text at its first gap. -/
def cutGap : Text → Option (Text × Text)
  | ':' :: ':' :: rest => some ([], rest)
  | c :: rest => (cutGap rest).map fun (before, after) => (c :: before, after)
  | [] => none

/-- The groups of a host of the newer kind.  A gap stands for at least one of them. -/
def groups? (t : Text) : Option (List UInt16) :=
  match cutGap t with
  | none => allGroups? true (pieces t)
  | some (before, after) =>
    match allGroups? false (pieces before), allGroups? true (pieces after) with
    | some front, some back =>
      let known := front.length + back.length
      if known < 8 then some (front ++ List.replicate (8 - known) 0 ++ back) else none
    | _, _ => none

/-- The zone behind a percent sign; there is none of an absent one. -/
def zone? : Option Text → Option UInt32
  | none => some 0
  | some digits =>
    match Text.toNat? digits with
    | none => none
    | some n => if n < UInt32.size then some (UInt32.ofNat n) else none

/-- Reads what stands in brackets. -/
def ofBracketed? (t : Text) : Option Host :=
  let (groupsText, zoneText) := match splitFirst (· == '%') t with
    | none => (t, none)
    | some (before, _, after) => (before, some after)
  match groups? groupsText, zone? zoneText with
  | some groups, some zone =>
    if eight : groups.length = 8 then some (.six groups eight zone) else none
  | _, _ => none

/-- Reads four octets as a host. -/
def ofDotted? (t : Text) : Option Host :=
  (octets? t).map fun (a, b, c, d) => .four a b c d

/-! ### Writing -/

/-- Four octets with dots between them. -/
def octetsText (a b c d : UInt8) : Text :=
  ['.'].intercalate ([a, b, c, d].map fun octet => Text.ofNat octet.toNat)

/-- Groups with colons between them. -/
def groupsText (groups : List UInt16) : Text :=
  [':'].intercalate (groups.map fun group => Text.hexOfNat group.toNat)

/-- The length of the run of zeros at the beginning. -/
def zerosAhead (groups : List UInt16) : Nat :=
  (groups.takeWhile (· == 0)).length

/-- Where the longest run of zeros begins and how long it is; of equally long ones the first. -/
def longestZeros (groups : List UInt16) : Nat × Nat :=
  (List.range groups.length).foldl
    (fun best i =>
      let run := zerosAhead (groups.drop i)
      if best.2 < run then (i, run) else best)
    (0, 0)

/-- Groups with a gap for the longest run of zeros, if it is longer than one. -/
def shortText (groups : List UInt16) : Text :=
  let (start, run) := longestZeros groups
  if 1 < run then
    groupsText (groups.take start) ++ "::".toList ++ groupsText (groups.drop (start + run))
  else groupsText groups

/-- The octets of an older host that is mapped into the newer kind. -/
def mapped? : List UInt16 → Option (UInt8 × UInt8 × UInt8 × UInt8)
  | [0, 0, 0, 0, 0, 0xFFFF, high, low] =>
    some (UInt8.ofNat (high.toNat / 256), UInt8.ofNat (high.toNat % 256),
      UInt8.ofNat (low.toNat / 256), UInt8.ofNat (low.toNat % 256))
  | _ => none

/-- The host as it stands before a port. -/
def toText : Host → Text
  | .four a b c d => octetsText a b c d
  | .six groups _ zone =>
    let number := match mapped? groups with
      | some (a, b, c, d) => "::ffff:".toList ++ octetsText a b c d
      | none => shortText groups
    let zoneText := if zone = 0 then [] else '%' :: Text.ofNat zone.toNat
    '[' :: number ++ zoneText ++ [']']

end Host

namespace Address

/-- A port in decimal. -/
def port? (t : Text) : Option UInt16 :=
  match Text.toNat? t with
  | none => none
  | some n => if n < UInt16.size then some (UInt16.ofNat n) else none

/-- Puts a host and the text of a port together. -/
def ofParts? (host : Option Host) (port : Text) : Option Address :=
  match host, port? port with
  | some host, some port => some { host, port }
  | _, _ => none

/-- Reads an address. -/
def ofText? : Text → Option Address
  | '[' :: rest =>
    match splitFirst (· == ']') rest with
    | some (inside, _, ':' :: port) => ofParts? (Host.ofBracketed? inside) port
    | _ => none
  | t =>
    match splitFirst (· == ':') t with
    | some (host, _, port) => ofParts? (Host.ofDotted? host) port
    | none => none

/-- The address as text. -/
def toText (a : Address) : Text :=
  a.host.toText ++ ':' :: Text.ofNat a.port.toNat

end Address

end HttpWire
