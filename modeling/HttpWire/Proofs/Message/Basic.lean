import HttpWire.Proofs.Headers
import HttpWire.Proofs.Message.Chunked
import HttpWire.Proofs.Version.Faithful
import HttpWire.Proofs.Version.Token

/-!
# Messages on the wire

A message as a sender may write it: empty lines, a request line, a header block, and the body that
the header block announces.  What makes a message well-formed is part of its type, so every
`Message` is one that a reader has to understand, and `Message.request` is what it has to make of
it.

A length wins over a transfer coding: `Content` is octets if a positive length is announced,
chunks if none is and the coding is listed, and nothing otherwise.
-/

namespace HttpWire

/-- The length that header lines announce, zero if they announce none: the decimal number in the
first line for it, below 2 to the power of 64. -/
def Announces (lines : List HeaderLine) (n : Nat) : Prop :=
  match HeaderLine.first? .contentLength lines with
  | none => n = 0
  | some t => Numeral t n ∧ n < UInt64.size

/-- The body behind header lines. -/
inductive Content (lines : List HeaderLine)
  | octets (body : Bytes) (body_ne_nil : body ≠ []) (announced : Announces lines body.length)
  | chunked (payload : Bytes) (trailers : List Field) (octets : Bytes)
    (coding : ChunkedCoding .ascii payload trailers octets) (announced : Announces lines 0)
    (listed : (HeaderLine.headers lines).Lists .transferEncoding "chunked".toList)
  | nothing (announced : Announces lines 0)
    (unlisted : ¬ (HeaderLine.headers lines).Lists .transferEncoding "chunked".toList)

/-- A request as it is sent. -/
structure Message where
  /-- The empty lines in front of the request line. -/
  blanks : List LineEnd
  method : Method
  target : Text
  target_plain : target.IsPlain
  target_trimmed : Text.trim target = target
  protocol : Text
  version : Version
  accepted : Version.ofToken protocol = .ok version
  ending : LineEnd
  lines : List HeaderLine
  blockEnding : LineEnd
  /-- What overrides the method is a method. -/
  override : ∀ t, HeaderLine.first? .methodOverride lines = some t → isToken t = true
  content : Content lines

namespace Message

variable (m : Message)

/-! ### What is sent -/

/-- The text of the request line. -/
def lineText : Text :=
  m.method.text ++ ' ' :: (m.target ++ ' ' :: m.protocol)

theorem isVisible_method {c : Char} (hc : c ∈ m.method.text) : isVisible c :=
  isVisible_of_isTokenChar (all_of_isToken m.method.valid c hc)

theorem isVisible_protocol {c : Char} (hc : c ∈ m.protocol) : isVisible c :=
  Version.isVisible_of_ofToken m.accepted c hc

/-- The request line. -/
def line : WireLine where
  text := m.lineText
  plain := by
    have hmethod : m.method.text.IsPlain := fun c hc =>
      ⟨(m.isVisible_method hc).1, (m.isVisible_method hc).2.1, (m.isVisible_method hc).2.2.1⟩
    have hprotocol : m.protocol.IsPlain := fun c hc =>
      ⟨(m.isVisible_protocol hc).1, (m.isVisible_protocol hc).2.1, (m.isVisible_protocol hc).2.2.1⟩
    exact hmethod.append (.cons (by decide) (m.target_plain.append (.cons (by decide) hprotocol)))
  ending := m.ending

/-- The octets of the body. -/
def contentOctets : Bytes :=
  match m.content with
  | .octets body .. => body
  | .chunked _ _ octets .. => octets
  | .nothing .. => []

/-- The octets of the message. -/
def octets : Bytes :=
  m.blanks.flatMap (fun e => (WireLine.empty e).octets) ++ m.line.octets ++
    HeaderLine.blockOctets m.lines m.blockEnding ++ m.contentOctets

/-! ### What is meant -/

/-- The method that is meant: what overrides the one of the request line, in capitals, if there is
such a thing. -/
def effectiveMethod : Method :=
  match h : HeaderLine.first? .methodOverride m.lines with
  | none => m.method
  | some t => ⟨Text.upper t, isToken_upper (m.override t h)⟩

/-- What the body carries. -/
def payload : Bytes :=
  match m.content with
  | .octets body .. => body
  | .chunked payload .. => payload
  | .nothing .. => []

/-- The trailers that are sent. -/
def trailers : List Field :=
  match m.content with
  | .chunked _ trailers .. => trailers
  | _ => []

/-- Trailers become header fields: they are allowed, and the sender says that it sends them. -/
def KeepsTrailers (allowTrailers : Bool) : Prop :=
  allowTrailers = true ∧ (HeaderLine.headers m.lines).Lists .te "trailers".toList

instance (allowTrailers : Bool) : Decidable (m.KeepsTrailers allowTrailers) :=
  inferInstanceAs (Decidable (_ ∧ _))

/-- The header fields, with the trailers behind them if they are kept. -/
def headers (allowTrailers : Bool) : Headers :=
  if m.KeepsTrailers allowTrailers then
    (Headers.toList ⟨m.trailers⟩).foldl Headers.append (HeaderLine.headers m.lines)
  else HeaderLine.headers m.lines

/-- The request that the message is. -/
def request (allowTrailers : Bool) : Request :=
  Request.ofTarget m.effectiveMethod m.target m.protocol m.version (m.headers allowTrailers)
    (Body.ofBytes m.payload (m.headers allowTrailers))

end Message

end HttpWire
