import HttpWire.Wire.Client

/-!
# Listeners

A listener has an address and hands out clients, with errors and waits in between.  A secured
listener hands out the same clients behind a session that is still to be negotiated.  The listener
inside it may be a secured one, too; but its clients have not shaken hands, so no session can be
negotiated over them.
-/

namespace HttpWire

/-- Something that a listener comes up with when it is asked for a client. -/
inductive Incoming
  | client (c : Client)
  | fault (error : IoError)
  /-- It takes that long before it comes up with the next thing. -/
  | wait (ms : Nat)

/-- A source of clients. -/
structure Listener where
  address : Except IoError Address
  incoming : List Incoming := []

namespace Listener

/-- A client as it is handed out by a secured listener. -/
def secureClient (negotiator : Negotiator) : Client → Client
  | .plain peer => .secured (.ofPeer peer negotiator)
  | .secured client => .secured (client.securedBy negotiator)

/-- The listener with its clients secured. -/
def secure (negotiator : Negotiator) (l : Listener) : Listener :=
  { l with
    incoming := l.incoming.map fun
      | .client c => .client (secureClient negotiator c)
      | other => other }

/-- What the listener comes up with, by moment, if it is asked again at once each time. -/
def arrivals (now : Nat) : List Incoming → List (Nat × Except IoError Client)
  | [] => []
  | .wait ms :: rest => arrivals (now + ms) rest
  | .fault e :: rest => (now, .error e) :: arrivals now rest
  | .client c :: rest => (now, .ok c) :: arrivals now rest

end Listener

end HttpWire
