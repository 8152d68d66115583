import HttpWire.Wire.Timeline

/-!
# Peers

A peer is the other side of a connection, by what it does: what arrives from it and when, how it
ends, how it answers the handshake, and how much of each write it accepts.  Its arrivals are a
script; its answers to writes and flushes are functions of what has been written before, so a peer
can accept any part, none, or fail at any point.

A peer answers a write, a flush and the closing at once: it makes nothing wait but reads and the
handshake.  It goes away only where a read meets that in its script, not by a write that fails or
by being closed.
-/

namespace HttpWire

/-- Something that arrives from a peer. -/
inductive Arrival
  /-- Octets.  A read takes as many of them as it asked for and leaves the others. -/
  | data (bytes : Bytes)
  /-- A read returns nothing. -/
  | nothing
  /-- A read fails. -/
  | fault (error : IoError)
  /-- A read waits. -/
  | pause (ms : Nat)
  /-- The peer is gone from here on. -/
  | disconnect
  /-- All work is cancelled, and reads wait for ever. -/
  | cancel
  /-- Reads wait for ever. -/
  | silence
deriving DecidableEq

/-- What reads meet behind all arrivals. -/
inductive Ending
  /-- They return nothing. -/
  | closed
  /-- They return nothing, and the peer is gone. -/
  | gone
  /-- They wait for ever. -/
  | silent
deriving DecidableEq

/-- How a peer answers the handshake. -/
inductive HandshakeConduct
  | succeeds (afterMs : Nat)
  | fails (error : IoError)
  | hangs
deriving DecidableEq

/-- How a peer answers a write. -/
inductive WriteAnswer
  /-- It accepts so many octets, or all if there are fewer. -/
  | accept (count : Nat)
  | fault (error : IoError)
deriving DecidableEq

/-- How a peer takes what is sent to it. -/
structure Intake where
  /-- The answer to a write, by the writes before it, the octets accepted before it, and the
  octets that it offers. -/
  onWrite : Nat → Nat → Nat → WriteAnswer := fun _ _ offered => .accept offered
  /-- The error of a flush, by the flushes before it. -/
  onFlush : Nat → Option IoError := fun _ => none
  /-- The error of closing. -/
  onClose : Option IoError := none

/-- Bounds on what a peer takes. -/
structure IntakeBounds where
  /-- The most octets that one write accepts. -/
  perWrite : Option Nat := none
  /-- Once so many octets have been accepted, writes fail. -/
  failAfter : Option Nat := none
  /-- Once so many octets have been accepted, writes accept none. -/
  zeroAfter : Option Nat := none
  /-- The flush that fails, the first being 1. -/
  failFlush : Option Nat := none
  /-- The error of closing. -/
  onClose : Option IoError := none
deriving DecidableEq

/-- The octets left under a bound on all writes together. -/
def IntakeBounds.left (accepted : Nat) (bound : Option Nat) (offered : Nat) : Nat :=
  (bound.map (· - accepted)).getD offered

/-- The answer to a write within bounds. -/
def IntakeBounds.answer (b : IntakeBounds) (accepted offered : Nat) : WriteAnswer :=
  if b.failAfter.any (· ≤ accepted) then .fault { message := "write failed".toList }
  else
    .accept (min (b.perWrite.getD offered)
      (min (left accepted b.failAfter offered) (left accepted b.zeroAfter offered)))

/-- The peer's side of writing within bounds. -/
def Intake.ofBounds (b : IntakeBounds) : Intake where
  onWrite _ accepted offered := b.answer accepted offered
  onFlush before :=
    if b.failFlush = some (before + 1) then some { message := "flush failed".toList } else none
  onClose := b.onClose

/-- The other side of a connection. -/
structure Peer where
  script : List Arrival := []
  ending : Ending := .closed
  connected : Bool := true
  /-- Its address, if it has one. -/
  remote : Option Address := none
  conduct : HandshakeConduct := .succeeds 0
  intake : Intake := {}
  writes : Nat := 0
  accepted : Nat := 0
  flushes : Nat := 0

namespace Peer

/-- The octets of arrivals. -/
def octetsOf (script : List Arrival) : Bytes :=
  script.flatMap fun
    | .data bytes => bytes
    | _ => []

/-- The number of octets that will still arrive. -/
def available (p : Peer) : Nat :=
  (octetsOf p.script).length

/-! ### Reading -/

/-- A read that waits for ever. -/
def readNever (p : Peer) (t : Timeline) : Except (Stop IoError) Bytes × Timed Peer :=
  match t.wait none with
  | (.error cause, t) => (.error (.interrupted cause), ⟨p, t⟩)
  | (.ok (), t) => (.error (.interrupted .stalled), ⟨p, t⟩)

/-- A read that returns nothing. -/
def readNothing (p : Peer) (t : Timeline) : Except (Stop IoError) Bytes × Timed Peer :=
  (.ok [], ⟨p, t.wire (.read 0)⟩)

/-- Reads from the arrivals `script`. -/
def readScript (limit : Nat) (p : Peer) :
    List Arrival → Timeline → Except (Stop IoError) Bytes × Timed Peer
  | [], t =>
    let p := { p with script := [] }
    match p.ending with
    | .closed => p.readNothing t
    | .gone => { p with connected := false }.readNothing t
    | .silent => p.readNever t
  | .data [] :: rest, t => readScript limit p rest t
  | .data bytes :: rest, t =>
    let script := if bytes.length ≤ limit then rest else .data (bytes.drop limit) :: rest
    (.ok (bytes.take limit), ⟨{ p with script }, t.wire (.read (bytes.take limit).length)⟩)
  | .nothing :: rest, t => { p with script := rest }.readNothing t
  | .fault e :: rest, t => (.error (.fault e), ⟨{ p with script := rest }, t.wire .readFault⟩)
  | .pause ms :: rest, t =>
    match t.sleep ms with
    | (.ok (), t) => readScript limit p rest t
    | (.error cause, t) => (.error (.interrupted cause), ⟨{ p with script := rest }, t⟩)
  | .disconnect :: rest, t => readScript limit { p with connected := false } rest t
  | .cancel :: rest, t => { p with script := .silence :: rest }.readNever t.cancel
  | .silence :: rest, t => { p with script := .silence :: rest }.readNever t

/-- Reads at most so many octets. -/
def read (limit : Nat) (p : Timed Peer) : Except (Stop IoError) Bytes × Timed Peer :=
  readScript limit p.subject p.subject.script p.timeline

/-- The octets that an answer holds. -/
def taken : Except (Stop IoError) Bytes → Nat
  | .ok bytes => bytes.length
  | .error _ => 0

theorem taken_readNever (p : Peer) (t : Timeline) : taken (p.readNever t).1 = 0 := by
  unfold readNever
  split <;> rfl

theorem subject_readNever (p : Peer) (t : Timeline) : (p.readNever t).2.subject = p := by
  unfold readNever
  split <;> rfl

/-- A read takes from the script what it returns. -/
theorem available_readScript (limit : Nat) (p : Peer) (script : List Arrival) (t : Timeline) :
    taken (readScript limit p script t).1 + (readScript limit p script t).2.subject.available =
      (octetsOf script).length := by
  fun_induction readScript limit p script t with
  | case1 _ _ p => simp [readNothing, taken, available, octetsOf, p]
  | case2 _ _ p => simp [readNothing, taken, available, octetsOf, p]
  | case3 _ _ p => simp [taken_readNever, subject_readNever, available, octetsOf, p]
  | case4 p t rest ih => simpa [octetsOf] using ih
  | case5 p t bytes rest hne script =>
    simp only [taken, available, octetsOf, List.flatMap_cons, List.length_append,
      List.length_take, script]
    split
    · omega
    · simp only [List.flatMap_cons, List.length_append, List.length_drop]
      omega
  | case6 => simp [readNothing, taken, available, octetsOf]
  | case7 => simp [taken, available, octetsOf]
  | case8 p t ms rest t' _ ih => simpa [octetsOf] using ih
  | case9 => simp [taken, available, octetsOf]
  | case10 p t rest ih => simpa [octetsOf] using ih
  | case11 => simp [taken_readNever, subject_readNever, available, octetsOf]
  | case12 => simp [taken_readNever, subject_readNever, available, octetsOf]

/-- A read returns no more than it is asked for. -/
theorem taken_readScript_le (limit : Nat) (p : Peer) (script : List Arrival) (t : Timeline) :
    taken (readScript limit p script t).1 ≤ limit := by
  fun_induction readScript limit p script t with
  | case1 => simp [readNothing, taken]
  | case2 => simp [readNothing, taken]
  | case3 => simp [taken_readNever]
  | case4 p t rest ih => exact ih
  | case5 p t bytes rest hne script =>
    simp only [taken, List.length_take]
    omega
  | case6 => simp [readNothing, taken]
  | case7 => simp [taken]
  | case8 p t ms rest t' _ ih => exact ih
  | case9 => simp [taken]
  | case10 p t rest ih => exact ih
  | case11 => simp [taken_readNever]
  | case12 => simp [taken_readNever]

instance : ByteSource (Timed Peer) where
  read := read
  available p := p.subject.available
  length_read_le {n p bs p'} h := by
    have := taken_readScript_le n p.subject p.subject.script p.timeline
    rw [show readScript n p.subject p.subject.script p.timeline = _ from h] at this
    exact this
  available_read {n p bs p'} h := by
    have := available_readScript n p.subject p.subject.script p.timeline
    rw [show readScript n p.subject p.subject.script p.timeline = _ from h] at this
    exact this
  available_stopped {n p e p'} h := by
    have := available_readScript n p.subject p.subject.script p.timeline
    rw [show readScript n p.subject p.subject.script p.timeline = _ from h] at this
    rw [taken, Nat.zero_add] at this
    exact this

/-! ### Writing and the rest -/

/-- Offers octets and returns how many were accepted. -/
def write (bytes : Bytes) (p : Timed Peer) : Except IoError Nat × Timed Peer :=
  let s := p.subject
  match s.intake.onWrite s.writes s.accepted bytes.length with
  | .fault e => (.error e, ⟨{ s with writes := s.writes + 1 }, p.timeline.wire .writeFault⟩)
  | .accept count =>
    let n := min count bytes.length
    (.ok n,
      ⟨{ s with writes := s.writes + 1, accepted := s.accepted + n },
        p.timeline.wire (.wrote (bytes.take n))⟩)

/-- Asks the peer to take delivery of what it has accepted. -/
def flush (p : Timed Peer) : Except IoError Unit × Timed Peer :=
  let s := p.subject
  let s' := { s with flushes := s.flushes + 1 }
  match s.intake.onFlush s.flushes with
  | some e => (.error e, ⟨s', p.timeline.wire .flushFault⟩)
  | none => (.ok (), ⟨s', p.timeline.wire .flushed⟩)

/-- Closes the connection. -/
def close (p : Timed Peer) : Except IoError Unit × Timed Peer :=
  let p' : Timed Peer := ⟨p.subject, p.timeline.wire .shut⟩
  match p.subject.intake.onClose with
  | some e => (.error e, p')
  | none => (.ok (), p')

/-- Shakes hands. -/
def handshake (p : Timed Peer) : Except (Stop IoError) Unit × Timed Peer :=
  let t := p.timeline.wire .handshake
  match p.subject.conduct with
  | .fails e => (.error (.fault e), ⟨p.subject, t⟩)
  | .succeeds ms =>
    match t.sleep ms with
    | (.ok (), t) => (.ok (), ⟨p.subject, t⟩)
    | (.error cause, t) => (.error (.interrupted cause), ⟨p.subject, t⟩)
  | .hangs =>
    match t.wait none with
    | (.ok (), t) => (.error (.interrupted .stalled), ⟨p.subject, t⟩)
    | (.error cause, t) => (.error (.interrupted cause), ⟨p.subject, t⟩)

end Peer

end HttpWire
