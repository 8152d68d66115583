import HttpWire.Connection.Exchange

/-!
# Serving a connection

A connection begins with the handshake, then goes from exchange to exchange, and ends by closing
the client.  It goes on behind an exchange only if the request was handled and the connection is
kept, or if a kept connection found no request and has looks left.  The looks start anew with each
handled request, and each look but the first comes after a pause.

The loop ends because a handled request takes octets of which there are finitely many, and
because looks are counted in between.
-/

namespace HttpWire.Connection

variable {υ : Type}

/-- Where a connection stands between exchanges. -/
inductive Stage
  /-- No request has been handled. -/
  | fresh
  /-- A request has been handled, and `empty` looks since then have found none. -/
  | kept (empty : UInt32)
deriving DecidableEq

namespace Stage

/-- The limit on waiting for a request. -/
def idleTimeout (settings : ConnectionSettings) : Stage → Option Nat
  | .fresh => none
  | .kept _ => settings.idleTimeout

/-- The stage behind a look that found no request, if another look may follow. -/
def lookAgain? (settings : ConnectionSettings) : Stage → Option Stage
  | .fresh => none
  | .kept empty => if empty < settings.retries then some (.kept (empty + 1)) else none

/-- The looks that may still find no request. -/
def looksLeft (settings : ConnectionSettings) : Stage → Nat
  | .fresh => 0
  | .kept empty => settings.retries.toNat - empty.toNat

theorem looksLeft_lookAgain {settings : ConnectionSettings} {stage stage' : Stage}
    (h : stage.lookAgain? settings = some stage') :
    stage'.looksLeft settings < stage.looksLeft settings := by
  cases stage with
  | fresh => simp [lookAgain?] at h
  | kept empty =>
    simp only [lookAgain?, Option.ite_none_right_eq_some, Option.some.injEq] at h
    obtain ⟨hlt, rfl⟩ := h
    have hlt := UInt32.lt_iff_toNat_lt.mp hlt
    have := settings.retries.toNat_lt
    simp only [looksLeft, UInt32.toNat_add, UInt32.reduceToNat]
    omega

end Stage

/-- How serving a connection ended. -/
inductive Ended
  /-- The client was closed. -/
  | closed
  /-- It waits for ever, or has passed the horizon of its timeline. -/
  | unfinished
deriving DecidableEq

/-- Closes the client.  An error of closing is of no consequence. -/
def close (c : Connection υ) : Ended × Connection υ :=
  let c := c.withClient (Client.close c.client).2
  (if c.timeline.isOver then .unfinished else .closed, c)

/-- Goes from exchange to exchange. -/
def serve [VersionResolver υ] (s : Service) (stage : Stage) (c : Connection υ) :
    Ended × Connection υ :=
  if c.timeline.isOver then (.unfinished, c)
  else if !c.client.subject.isConnected then c.close
  else
    match _h : c.exchange s (stage.idleTimeout s.settings) with
    | (.handled true, c') => serve s (.kept 0) c'
    | (.handled false, c') => c'.close
    | (.noRequest, c') =>
      match _hlook : stage.lookAgain? s.settings with
      | some stage' => serve s stage' (c'.onTimeline (·.pass s.settings.backoff))
      | none => c'.close
    | (.idle, c') => c'.close
    | (.cancelled, c') => c'.close
    | (.failed e, c') => (c'.notify (.exchangeFailed e)).close
    | (.stalled, c') => (.unfinished, c')
termination_by (c.remaining, stage.looksLeft s.settings)
decreasing_by
  · exact Prod.Lex.left _ _ (remaining_exchange_lt _h)
  · have h := remaining_exchange_le s (stage.idleTimeout s.settings) c
    rw [_h] at h
    rw [remaining_onTimeline]
    rcases Nat.lt_or_eq_of_le h with h | h
    · exact Prod.Lex.left _ _ h
    · rw [h]
      exact Prod.Lex.right _ (Stage.looksLeft_lookAgain _hlook)

/-- Shakes hands within the time limit for it. -/
def shakeHands (s : Service) (c : Connection υ) : Except (Stop IoError) Unit × Connection υ :=
  let limits : Limits := { deadline := some (c.timeline.now + s.settings.handshakeTimeout) }
  let (result, client) := Client.handshake (c.onTimeline (·.under limits)).client
  (result, (c.withClient client).onTimeline (·.under {}))

/-- Serves a connection from the handshake to the end. -/
def run [VersionResolver υ] (s : Service) (c : Connection υ) : Ended × Connection υ :=
  match c.shakeHands s with
  | (.ok (), c) => serve s .fresh c
  | (.error (.fault e), c) => (c.notify (.handshakeFailed (.handshake e))).close
  | (.error (.interrupted _), c) =>
    (c.notify (.handshakeFailed (.handshakeTimeout s.settings.handshakeTimeout))).close

end HttpWire.Connection
