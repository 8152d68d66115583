import HttpWire.Pipeline.Basic
import HttpWire.Request.Receive

/-!
# What happens on a connection

Everything that happens is an event: what is done to the peer, what handling a request leaves
behind, what is reported, and the requests that enter the pipeline and the contexts that leave it.
-/

namespace HttpWire

/-- Something done to a peer. -/
inductive WireEvent
  | handshake
  | read (count : Nat)
  | readFault
  | wrote (bytes : Bytes)
  | writeFault
  | flushed
  | flushFault
  | shut
deriving DecidableEq

/-- How much a notice matters. -/
inductive Level
  | warn
  | info
deriving DecidableEq

/-- Something that is reported to whoever runs the program. -/
inductive Notice
  | unsupportedProtocol (error : VersionError)
  | handshakeFailed (error : ServeError)
  | exchangeFailed (error : ServeError)
  | epilogueIgnored (length : Nat)
deriving DecidableEq

namespace Notice

/-- How much the notice matters. -/
def level : Notice → Level
  | .epilogueIgnored _ => .info
  | _ => .warn

/-- What is reported. -/
def message : Notice → Text
  | .unsupportedProtocol _ => "unsupported protocol".toList
  | .handshakeFailed _ => "handshake failed".toList
  | .exchangeFailed _ => "failed to serve request".toList
  | .epilogueIgnored _ => "ignore multipart epilogue".toList

/-- The cause or the amount. -/
def detail : Notice → Text
  | .unsupportedProtocol error => error.message
  | .handshakeFailed error => error.message
  | .exchangeFailed error => error.message
  | .epilogueIgnored length => Text.ofNat length

end Notice

/-- What is reported when no request was received for that reason. -/
def Absence.notice? : Absence → Option Notice
  | .unsupportedProtocol error => some (.unsupportedProtocol error)
  | _ => none

/-- What is reported when a multipart body has been read. -/
def Multipart.notice? (m : Multipart) : Option Notice :=
  if m.epilogue.isEmpty then none else some (.epilogueIgnored m.epilogue.length)

/-- Something that happens. -/
inductive Event
  | wire (e : WireEvent)
  | mark (m : Mark)
  | notice (n : Notice)
  /-- A request is handed to the pipeline. -/
  | handed (r : Request)
  /-- The pipeline is left, with that context. -/
  | answered (c : Context)
deriving DecidableEq

end HttpWire
