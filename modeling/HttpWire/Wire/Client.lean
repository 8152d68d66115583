import HttpWire.Wire.Secured

/-!
# Clients

A client is what a connection reads from and writes to: a peer itself, or a peer behind a session.
-/

namespace HttpWire

/-- What a connection reads from and writes to. -/
inductive Client
  | plain (peer : Peer)
  | secured (client : SecuredClient)

namespace Client

/-- Whether the client is there. -/
def isConnected : Client → Bool
  | .plain peer => peer.connected
  | .secured client => client.isConnected

/-- The address of the client, if it has one. -/
def remote : Client → Option Address
  | .plain peer => peer.remote
  | .secured client => client.remote

/-- The octets that can still be read. -/
def available : Client → Nat
  | .plain peer => peer.available
  | .secured client =>
    match client.state with
    | .pending inner _ => inner.available
    | .established session => session.available
    | .failed => 0

/-- Does to either kind of client what is to be done. -/
def onEither {ε α : Type} (onPeer : Timed Peer → Except ε α × Timed Peer)
    (onTls : Timed SecuredClient → Except ε α × Timed SecuredClient) (c : Timed Client) :
    Except ε α × Timed Client :=
  match c.subject with
  | .plain peer =>
    let (result, peer) := onPeer ⟨peer, c.timeline⟩
    (result, peer.map .plain)
  | .secured client =>
    let (result, client) := onTls ⟨client, c.timeline⟩
    (result, client.map .secured)

/-- Reads at most so many octets. -/
def read (limit : Nat) : Timed Client → Except (Stop IoError) Bytes × Timed Client :=
  onEither (Peer.read limit) (SecuredClient.read limit)

/-- Offers octets and returns how many were accepted. -/
def write (bytes : Bytes) : Timed Client → Except IoError Nat × Timed Client :=
  onEither (Peer.write bytes) (SecuredClient.write bytes)

/-- Asks the client to take delivery of what it has accepted. -/
def flush : Timed Client → Except IoError Unit × Timed Client :=
  onEither Peer.flush SecuredClient.flush

/-- Does what has to be done before the first request. -/
def handshake : Timed Client → Except (Stop IoError) Unit × Timed Client :=
  onEither Peer.handshake SecuredClient.handshake

/-- Closes the client. -/
def close : Timed Client → Except IoError Unit × Timed Client :=
  onEither Peer.close SecuredClient.close

/-- A read takes from the client what it returns, and no more than it is asked for. -/
theorem read_account (limit : Nat) (c : Timed Client) :
    Peer.taken (read limit c).1 ≤ limit ∧
      Peer.taken (read limit c).1 + (read limit c).2.subject.available = c.subject.available := by
  obtain ⟨client, t⟩ := c
  cases client with
  | plain peer =>
    exact ⟨Peer.taken_readScript_le limit peer peer.script t,
      Peer.available_readScript limit peer peer.script t⟩
  | secured client =>
    obtain ⟨state, remote⟩ := client
    cases state with
    | pending inner negotiator => exact ⟨Nat.zero_le _, Nat.zero_add _⟩
    | failed => exact ⟨Nat.zero_le _, Nat.zero_add _⟩
    | established session =>
      exact ⟨Peer.taken_readScript_le limit session session.script t,
        Peer.available_readScript limit session session.script t⟩

instance : ByteSource (Timed Client) where
  read := read
  available c := c.subject.available
  length_read_le {n c bs c'} h := by
    have := (read_account n c).1
    rw [h] at this
    exact this
  available_read {n c bs c'} h := by
    have := (read_account n c).2
    rw [h] at this
    exact this
  available_stopped {n c e c'} h := by
    have := (read_account n c).2
    rw [h, Peer.taken, Nat.zero_add] at this
    exact this

/-- Writing leaves what can be read. -/
theorem available_write (bytes : Bytes) (c : Timed Client) :
    (write bytes c).2.subject.available = c.subject.available := by
  have peer (p : Timed Peer) : (Peer.write bytes p).2.subject.available = p.subject.available := by
    unfold Peer.write
    simp only
    split <;> rfl
  obtain ⟨client, t⟩ := c
  cases client with
  | plain p => exact peer ⟨p, t⟩
  | secured client =>
    obtain ⟨state, remote⟩ := client
    cases state with
    | established session => exact peer ⟨session, t⟩
    | pending | failed => rfl

/-- Flushing leaves what can be read. -/
theorem available_flush (c : Timed Client) :
    (flush c).2.subject.available = c.subject.available := by
  have peer (p : Timed Peer) : (Peer.flush p).2.subject.available = p.subject.available := by
    unfold Peer.flush
    simp only
    split <;> rfl
  obtain ⟨client, t⟩ := c
  cases client with
  | plain p => exact peer ⟨p, t⟩
  | secured client =>
    obtain ⟨state, remote⟩ := client
    cases state with
    | established session => exact peer ⟨session, t⟩
    | pending | failed => rfl

end Client

end HttpWire
