import HttpWire.Server.Listener

/-!
# The life of a server

A server runs one accept loop per listener and one task per accepted client.  It counts its tasks,
loops included.  A loop that has received a client still has to start the task for it, and anything
else may happen in between.  After cancellation each loop stops when it notices, and connections end
when they end.  Whoever waits for the server to stop waits for the cancellation first and then for
the count to be zero.

`ServerState.step` is one move of this, in whatever order moves come.  A move that is not possible
in a state has no successor.
-/

namespace HttpWire

/-- A connection of a server: its loop, and its number among the connections of the loop. -/
structure ConnectionId where
  loop : Nat
  number : Nat
deriving DecidableEq

/-- Where an accept loop stands. -/
inductive LoopPhase
  /-- It waits for a client and for the cancellation. -/
  | accepting
  /-- It has received a client and has not started a connection for it yet. -/
  | holding (client : Client)
  /-- It has noticed the cancellation. -/
  | stopped

/-- An accept loop. -/
structure AcceptLoop where
  /-- What its listener will come up with. -/
  coming : List (Except IoError Client)
  phase : LoopPhase := .accepting
  /-- The number of connections that it has started. -/
  connections : Nat := 0

namespace AcceptLoop

/-- The client for which it has not started a connection yet. -/
def held? (loop : AcceptLoop) : Option Client :=
  match loop.phase with
  | .holding client => some client
  | _ => none

/-- Whether its task has ended. -/
def isStopped (loop : AcceptLoop) : Bool :=
  match loop.phase with
  | .stopped => true
  | _ => false

end AcceptLoop

/-- What whoever waits for a server to stop is waiting for. -/
inductive Waiter
  | forCancellation
  | forTasks
  /-- Nothing any more. -/
  | released
deriving DecidableEq

/-- A server while it runs. -/
structure ServerState where
  loops : List AcceptLoop
  /-- All connections that were ever started, with their clients. -/
  started : List (ConnectionId × Client) := []
  /-- The connections that have not ended. -/
  running : List ConnectionId := []
  /-- The number of tasks that have not ended. -/
  tracked : Nat
  cancelled : Bool := false
  waiter : Waiter := .forCancellation

/-- A move of a server. -/
inductive ServerMove
  /-- A loop takes what its listener comes up with. -/
  | accept (loop : Nat)
  /-- A loop starts a connection for the client that it has received. -/
  | start (loop : Nat)
  /-- The server is told to stop. -/
  | cancel
  /-- A loop notices that. -/
  | stop (loop : Nat)
  /-- A connection ends. -/
  | finish (id : ConnectionId)
  /-- Whoever waits for the server notices that it was told to stop. -/
  | close
  /-- Whoever waits for the server goes on. -/
  | release
deriving DecidableEq

namespace ServerState

/-- A server that has just been started. -/
def initial (loops : List (List (Except IoError Client))) : ServerState :=
  { loops := loops.map fun coming => { coming }, tracked := loops.length }

/-- The connections that a loop has started. -/
def connectionsOf (s : ServerState) (i : Nat) : List (ConnectionId × Client) :=
  s.started.filter (·.1.loop = i)

/-- A loop takes a result: an error is passed over, a client is for a connection. -/
def accept (s : ServerState) (i : Nat) : Option ServerState :=
  match s.loops[i]? with
  | none => none
  | some loop =>
    match loop.phase, loop.coming with
    | .accepting, .error _ :: rest =>
      some { s with loops := s.loops.set i { loop with coming := rest } }
    | .accepting, .ok client :: rest =>
      some { s with loops := s.loops.set i { loop with coming := rest, phase := .holding client } }
    | _, _ => none

/-- A loop starts a connection and goes back to accepting. -/
def start (s : ServerState) (i : Nat) : Option ServerState :=
  match s.loops[i]? with
  | none => none
  | some loop =>
    match loop.phase with
    | .holding client =>
      let id : ConnectionId := ⟨i, loop.connections⟩
      some { s with
        loops := s.loops.set i
          { loop with phase := .accepting, connections := loop.connections + 1 }
        started := s.started ++ [(id, client)]
        running := s.running ++ [id]
        tracked := s.tracked + 1 }
    | _ => none

/-- A loop that is accepting stops, which it does only when the server is cancelled. -/
def stop (s : ServerState) (i : Nat) : Option ServerState :=
  match s.loops[i]? with
  | none => none
  | some loop =>
    match loop.phase with
    | .accepting =>
      if s.cancelled then
        some { s with
          loops := s.loops.set i { loop with phase := .stopped }, tracked := s.tracked - 1 }
      else none
    | _ => none

/-- A connection ends. -/
def finish (s : ServerState) (id : ConnectionId) : Option ServerState :=
  if id ∈ s.running then some { s with running := s.running.erase id, tracked := s.tracked - 1 }
  else none

/-- Whoever waits goes on to wait for the tasks. -/
def close (s : ServerState) : Option ServerState :=
  if s.cancelled && s.waiter == .forCancellation then some { s with waiter := .forTasks } else none

/-- Whether whoever waits for the server to stop may go on. -/
def isStopped (s : ServerState) : Bool :=
  s.waiter == .forTasks && s.tracked == 0

/-- Whoever waits goes on. -/
def release (s : ServerState) : Option ServerState :=
  if s.isStopped then some { s with waiter := .released } else none

/-- One move. -/
def step (s : ServerState) : ServerMove → Option ServerState
  | .accept i => s.accept i
  | .start i => s.start i
  | .cancel => some { s with cancelled := true }
  | .stop i => s.stop i
  | .finish id => s.finish id
  | .close => s.close
  | .release => s.release

/-- One move after the other, as long as they are possible. -/
def steps (s : ServerState) (moves : List ServerMove) : Option ServerState :=
  moves.foldlM step s

end ServerState

end HttpWire
