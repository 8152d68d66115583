import HttpWire.Field.Block
import HttpWire.Field.Parameterized
import HttpWire.MediaType
import HttpWire.Reading.Buffered
import HttpWire.Reading.Pieces

/-!
# Multipart bodies

A multipart body is cut into parts by delimiter lines: two hyphens and the boundary, two more
hyphens on the closing one, then spaces and tabs at most.  A part is a header block and the octets
up to the line break before the next delimiter line, which belongs to that line.  What stands
before the first delimiter line is passed over, and so is what stands behind the closing one,
whose octets are kept for the record.  Without a closing line the last part goes on to the end.

The whole body is in memory.  It is read line by line, and a part is no copy but a stretch of the
body, whose ends are known from the numbers of octets that the reader says it took.

A part is named by its `Content-Disposition`: the `name` of a `form-data` one, the `filename` of a
`file` one.  A part without such a name is named by its position.
-/

namespace HttpWire

/-- A part of a multipart body. -/
structure Part where
  name : Text
  headers : Headers
  /-- The octets of the whole body. -/
  parent : Bytes
  /-- Where the header block begins. -/
  start : Nat
  /-- Where the header block ends and the content begins. -/
  content : Nat
  /-- Where the content ends. -/
  stop : Nat
deriving DecidableEq

/-- The parts of a multipart body in their order. -/
structure Multipart where
  parts : List Part := []
  /-- What stands behind the closing delimiter line. -/
  epilogue : Bytes := []
deriving DecidableEq

/-- What a delimiter line does. -/
inductive Delimiter
  /-- It ends a part and begins the next. -/
  | opening
  /-- It ends the last part. -/
  | closing
deriving DecidableEq

/-- Recognises a delimiter line of a boundary. -/
def Delimiter.ofLine? (boundary line : Text) : Option Delimiter :=
  match ("--".toList ++ boundary).isPrefixOf? line with
  | none => none
  | some rest =>
    match "--".toList.isPrefixOf? rest with
    | some padding => if padding.all Text.isSpaceOrTab then some .closing else none
    | none => if rest.all Text.isSpaceOrTab then some .opening else none

namespace Part

/-- The header block as it was sent. -/
def head (p : Part) : Bytes :=
  p.parent.extract p.start p.content

/-- The content. -/
def body (p : Part) : Bytes :=
  p.parent.extract p.content p.stop

/-- The length of the content. -/
def length (p : Part) : Nat :=
  p.stop - p.content

/-- The part as it was sent, header block included. -/
def toText (p : Part) : Text :=
  Utf8.decodeLossy (p.parent.extract p.start p.stop)

/-- The media type of the part. -/
def mediaType? (p : Part) : Option MediaType :=
  ((p.headers.get? .contentType).bind FieldValue.text?).bind MediaType.ofText?

/-- The name that a `Content-Disposition` value gives. -/
def dispositionName? (v : Parameterized) : Option Text :=
  if Text.sameIgnoringCase v.base "form-data".toList then v.param? "name".toList
  else if Text.sameIgnoringCase v.base "file".toList then v.param? "filename".toList
  else none

/-- The name of a part with such headers, if it stands behind `index` others. -/
def nameOf (h : Headers) (index : Nat) : Except HeaderFault Text :=
  match h.get? .contentDisposition with
  | none => .ok (Text.ofNat index)
  | some value =>
    (Parameterized.ofText value.textLossy).map fun v =>
      (dispositionName? v).getD (Text.ofNat index)

end Part

namespace Multipart

/-- A part whose end has not been seen. -/
structure OpenPart where
  headers : Headers
  start : Nat
  content : Nat

/-- The part under its name, with its end. -/
def OpenPart.closed (p : OpenPart) (raw : Bytes) (name : Text) (stop : Nat) : Part :=
  { name, headers := p.headers, parent := raw, start := p.start, content := p.content, stop }

/-- Where the octets from `lower` to `stop` end without the line break at their end. -/
def beforeLineBreak (raw : Bytes) (lower stop : Nat) : Nat :=
  if lower < stop ∧ raw[stop - 1]? = some lineFeed then
    if lower < stop - 1 ∧ raw[stop - 2]? = some carriageReturn then stop - 2 else stop - 1
  else stop

/-- Ends the open part and puts it behind the others. -/
def close (raw : Bytes) (parts : List Part) (opened : OpenPart) (stop : Nat) :
    Except ReceiveError (List Part) :=
  match Part.nameOf opened.headers parts.length with
  | .error e => .error (.header e)
  | .ok name => .ok (parts ++ [opened.closed raw name stop])

/-- Ends the open part, if there is one, in front of a delimiter line. -/
def closeBefore (raw : Bytes) (parts : List Part) (opened : Option OpenPart) (position : Nat) :
    Except ReceiveError (List Part) :=
  match opened with
  | none => .ok parts
  | some p => close raw parts p (beforeLineBreak raw p.content position)

section

variable {ρ : Type} [ByteReader ρ]

/-- Reads parts of the octets `raw`, of which the reader has taken those in front of `position`,
behind the parts read so far. -/
def scan (boundary : Text) (raw : Bytes) (parts : List Part) (opened : Option OpenPart)
    (position : Nat) (r : ρ) : Except ReceiveError Multipart :=
  match _h : ByteReader.readLine r with
  | (.error e, _) => .error e.receiveError
  | (.ok none, _) =>
    match opened with
    | none => .error (.multipart (.noDelimiter boundary))
    | some p => (close raw parts p raw.length).map fun parts => { parts }
  | (.ok (some line), r') =>
    match Delimiter.ofLine? boundary line with
    | none => scan boundary raw parts opened (position + ByteReader.lastTaken r') r'
    | some kind =>
      match closeBefore raw parts opened position with
      | .error e => .error e
      | .ok parts =>
        match kind with
        | .closing => .ok { parts, epilogue := raw.drop (position + ByteReader.lastTaken r') }
        | .opening =>
          match _hb : Headers.readBlock 0 {} r' with
          | (.error e, _, _) => .error e.receiveError
          | (.ok length, headers, r'') =>
            scan boundary raw parts
              (some { headers, start := position + ByteReader.lastTaken r'
                      content := position + ByteReader.lastTaken r' + length })
              (position + ByteReader.lastTaken r' + length) r''
termination_by ByteReader.remaining r
decreasing_by
  · exact ByteReader.remaining_readLine_lt _h
  · have h := Headers.remaining_readBlock_le 0 {} r'
    rw [_hb] at h
    exact Nat.lt_of_le_of_lt h (ByteReader.remaining_readLine_lt _h)

end

/-- The reader of octets in memory. -/
def reader (raw : Bytes) : BufferedReader Pieces :=
  .ofSource ⟨[raw]⟩ BufferedReader.defaultCapacity .utf8

/-- Reads a multipart body. -/
def ofBytes (raw : Bytes) (boundary : Text) : Except ReceiveError Multipart :=
  scan boundary raw [] none 0 (reader raw)

/-- The last part of a name. -/
def get? (m : Multipart) (name : Text) : Option Part :=
  m.parts.reverse.find? (·.name == name)

/-- The names of the parts, in order. -/
def names (m : Multipart) : List Text :=
  m.parts.map (·.name)

end Multipart

/-- The part read as a multipart body, if its media type says that it is one. -/
def Part.nested (p : Part) : Except ReceiveError (Option Multipart) :=
  match p.mediaType?.bind MediaType.multipartBoundary? with
  | none => .ok none
  | some boundary => (Multipart.ofBytes p.body boundary).map some

end HttpWire
