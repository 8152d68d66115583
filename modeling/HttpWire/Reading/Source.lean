import HttpWire.Fault.Error

/-!
# Sources of octets

A source answers reads: each asks for at most a number of octets and gets some, none at the end,
or is stopped.  A read stops with an error of the source, or because it would have to wait and is
not allowed to go on waiting.

The number of octets that a source still holds is part of the contract (`available`): a read takes
from it exactly what it returns.  It bounds every loop over a source and is what the readers'
accounts of consumed octets are compared with.
-/

namespace HttpWire

/-- Why something that waits is ended from outside. -/
inductive Interruption
  /-- Its time limit has passed. -/
  | timedOut
  /-- It has been cancelled. -/
  | cancelled
  /-- Nothing can ever end the wait. -/
  | stalled
deriving DecidableEq

/-- Why an operation on a transport does not deliver. -/
inductive Stop (ε : Type)
  | fault (error : ε)
  | interrupted (cause : Interruption)
deriving DecidableEq

/-- The same stop with its error seen as another. -/
def Stop.map {ε δ : Type} (f : ε → δ) : Stop ε → Stop δ
  | .fault e => .fault (f e)
  | .interrupted i => .interrupted i

/-- A stop as an error of reading: an interruption counts as an error of the transport. -/
def Stop.receiveError : Stop ReceiveError → ReceiveError
  | .fault e => e
  | .interrupted _ => .io { message := "interrupted".toList }

/-- A source of octets. -/
class ByteSource (σ : Type) where
  /-- Reads at most so many octets; an empty answer is the end. -/
  read : Nat → σ → Except (Stop IoError) Bytes × σ
  /-- The number of octets that reads can still return. -/
  available : σ → Nat
  /-- No read returns more than it is asked for. -/
  length_read_le : ∀ {n s bs s'}, read n s = (.ok bs, s') → bs.length ≤ n
  /-- A read takes exactly what it returns. -/
  available_read : ∀ {n s bs s'}, read n s = (.ok bs, s') → bs.length + available s' = available s
  /-- A read that is stopped takes nothing. -/
  available_stopped : ∀ {n s e s'}, read n s = (.error e, s') → available s' = available s

end HttpWire
