import HttpWire.Wire.Peer

/-!
# Secured clients

A secured client stands between a connection and a peer.  It has a session only when a negotiation
with the peer has established one; until then, and after a failed or abandoned negotiation, it
reads and writes nothing.  The negotiation itself is a parameter: any procedure that is given the
peer and comes back with a session, with an error, or not at all.

`awaitRecord` is the negotiation of an acceptor that has not been sent a whole record: it reads
until there is one, and turns away at once what cannot be the beginning of a record.
-/

namespace HttpWire

/-- What a negotiation came to. -/
inductive Negotiation
  /-- A session, as the peer that is reached through it. -/
  | established (session : Peer)
  | failed (error : IoError)
  /-- It was ended from outside. -/
  | abandoned (cause : Interruption)

/-- A procedure that tries to establish a session with a peer. -/
abbrev Negotiator := Timed Peer → Negotiation × Timeline

/-- How far a secured client has come. -/
inductive SecuredState
  | pending (inner : Peer) (negotiator : Negotiator)
  | established (session : Peer)
  | failed

/-- A client that is secured by a session. -/
structure SecuredClient where
  state : SecuredState
  /-- The address of the peer at the beginning. -/
  remote : Option Address

namespace SecuredClient

/-- A client whose session is still to be negotiated. -/
def ofPeer (inner : Peer) (negotiator : Negotiator) : SecuredClient :=
  { state := .pending inner negotiator, remote := inner.remote }

/-- The error of using a session that there is not. -/
def noSession : IoError :=
  { kind := .notConnected, message := "tls session is not established".toList }

/-- A client that is secured over this one.  The peer of its session is that of this one's session.
Without a session, this one refuses whatever a negotiation asks of it, so nothing comes of that. -/
def securedBy (negotiator : Negotiator) (c : SecuredClient) : SecuredClient :=
  match c.state with
  | .pending inner _ => { c with state := .pending inner fun p => (.failed noSession, p.timeline) }
  | .established session => { c with state := .pending session negotiator }
  | .failed => c

/-- Whether there is a session. -/
def isEstablished (c : SecuredClient) : Bool :=
  match c.state with
  | .established _ => true
  | _ => false

/-- Whether the peer is there, as far as the client may know. -/
def isConnected (c : SecuredClient) : Bool :=
  match c.state with
  | .pending inner _ => inner.connected
  | .established session => session.connected
  | .failed => false

/-- The error of negotiating again after a failure. -/
def alreadyFailed : IoError :=
  { kind := .notConnected, message := "tls handshake already failed".toList }

/-- The client with another session, at the moment that using the session has reached. -/
def resume (c : SecuredClient) (session : Timed Peer) : Timed SecuredClient :=
  session.map fun s => { c with state := .established s }

/-- Does something with the session; fails if there is none. -/
def withSession {ε α : Type} (refused : ε) (use : Timed Peer → Except ε α × Timed Peer)
    (c : Timed SecuredClient) : Except ε α × Timed SecuredClient :=
  match c.subject.state with
  | .established session =>
    let (result, session) := use ⟨session, c.timeline⟩
    (result, c.subject.resume session)
  | _ => (.error refused, c)

/-- Reads from the session. -/
def read (limit : Nat) : Timed SecuredClient → Except (Stop IoError) Bytes × Timed SecuredClient :=
  withSession (.fault noSession) (Peer.read limit)

/-- Writes to the session. -/
def write (bytes : Bytes) : Timed SecuredClient → Except IoError Nat × Timed SecuredClient :=
  withSession noSession (Peer.write bytes)

/-- Flushes the session. -/
def flush : Timed SecuredClient → Except IoError Unit × Timed SecuredClient :=
  withSession noSession Peer.flush

/-- Ends the session. -/
def shutdown : Timed SecuredClient → Except IoError Unit × Timed SecuredClient :=
  withSession noSession Peer.close

/-- Negotiates a session.  The peer is given up for good if that fails or is abandoned. -/
def handshake (c : Timed SecuredClient) : Except (Stop IoError) Unit × Timed SecuredClient :=
  match c.subject.state with
  | .established _ => (.ok (), c)
  | .failed => (.error (.fault alreadyFailed), c)
  | .pending inner negotiator =>
    match negotiator ⟨inner, c.timeline⟩ with
    | (.established session, t) => (.ok (), c.subject.resume ⟨session, t⟩)
    | (.failed e, t) => (.error (.fault e), ⟨{ c.subject with state := .failed }, t⟩)
    | (.abandoned cause, t) =>
      (.error (.interrupted cause), ⟨{ c.subject with state := .failed }, t⟩)

/-- Closes the session, or the peer if there has been no negotiation. -/
def close (c : Timed SecuredClient) : Except IoError Unit × Timed SecuredClient :=
  match c.subject.state with
  | .failed => (.ok (), c)
  | .established session =>
    let (result, session) := Peer.close ⟨session, c.timeline⟩
    (result, c.subject.resume session)
  | .pending inner negotiator =>
    let (result, inner) := Peer.close ⟨inner, c.timeline⟩
    (result, inner.map fun inner => { c.subject with state := .pending inner negotiator })

end SecuredClient

/-! ### Waiting for a record -/

namespace Negotiator

/-- The error of a peer that ends before a record is whole. -/
def endedEarly : IoError :=
  { kind := .unexpectedEof, message := "tls handshake eof".toList }

/-- The error of octets that cannot be the beginning of a record. -/
def notARecord : IoError :=
  { kind := .invalidData, message := "received corrupt message of type InvalidContentType".toList }

/-- The alert that tells a peer that its record could not be decoded. -/
def decodeAlert : Bytes := [0x15, 0x03, 0x03, 0x00, 0x02, 0x02, 0x32]

/-- The number of octets in front of the contents of a record. -/
def headerLength : Nat := 5

/-- Whether octets are enough for the front of a record and are none. -/
def isNoRecord : Bytes → Bool
  | [] => false
  | type :: rest => headerLength ≤ rest.length + 1 && !(0x14 ≤ type && type ≤ 0x18)

/-- Goes on waiting for a record of which `got` has been read. -/
def awaitRecordFrom (got : Bytes) (p : Timed Peer) : Negotiation × Timeline :=
  -- More is asked for than there is, so a read takes all that has arrived together.
  match _h : Peer.read (p.subject.available + 1) p with
  | (.error (.fault e), p') => (.failed e, p'.timeline)
  | (.error (.interrupted cause), p') => (.abandoned cause, p'.timeline)
  | (.ok [], p') => (.failed endedEarly, p'.timeline)
  | (.ok (b :: bs), p') =>
    if isNoRecord (got ++ b :: bs) then
      (.failed notARecord, (Peer.write decodeAlert p').2.timeline)
    else awaitRecordFrom (got ++ b :: bs) p'
termination_by p.subject.available
decreasing_by
  have := ByteSource.available_read (σ := Timed Peer) _h
  simp only [List.length_cons, ByteSource.available] at this
  omega

/-- Waits for a record. -/
def awaitRecord : Negotiator :=
  awaitRecordFrom []

end Negotiator

end HttpWire
