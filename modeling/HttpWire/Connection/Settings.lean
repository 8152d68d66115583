import HttpWire.Text.Basic

/-!
# Settings of a connection

All times are in milliseconds.
-/

namespace HttpWire

/-- The settings of a connection. -/
structure ConnectionSettings where
  /-- How often a kept connection may come up empty in a row before it is closed. -/
  retries : UInt32 := 10
  /-- The time between two looks for a request. -/
  backoff : Nat := 100
  /-- The time that the handshake may take. -/
  handshakeTimeout : Nat := 10000
  /-- Whether trailers of chunked bodies may become header fields. -/
  allowTrailers : Bool := true
  readBuffer : Nat := 2048
  writeBuffer : Nat := 8192
  /-- The time that a kept connection may wait for a request, if it is limited. -/
  idleTimeout : Option Nat := none
deriving DecidableEq

end HttpWire
