import HttpWire.Connection.Basic
import HttpWire.Server.Lifecycle

/-!
# Running a server

A run of a server is told to stop at a given moment.  Until then its loops take whatever their
listeners come up with as soon as it is there, and each client is served on a timeline that starts
when it is accepted and is cancelled at that moment.  The moves of the run in the order of their
moments are a run of the server's states; it ends with the move behind which the server has
stopped.
-/

namespace HttpWire

/-- A server that has listeners. -/
structure Server where
  listeners : List Listener
  service : Service
  has_listener : listeners ≠ []

/-- Why a server could not be built. -/
inductive SetupError
  | noListener
deriving DecidableEq

/-- The wording of an error of building a server. -/
def SetupError.message : SetupError → Text
  | .noListener => "at least one listener must be set".toList

/-- A connection that was served: when it began, when it ended, and what happened on it. -/
structure Visit where
  start : Nat
  finish : Nat
  events : List (Nat × Event)

/-- A run of a server. -/
structure ServerRun where
  /-- By listener, its clients in order; one that was never accepted has no visit. -/
  visits : List (List (Option Visit))
  /-- The moment at which the server had stopped. -/
  stopped : Option Nat

namespace Server

/-- Builds a server, which needs a listener. -/
def build (listeners : List Listener) (service : Service) : Except SetupError Server :=
  if h : listeners = [] then .error .noListener else .ok ⟨listeners, service, h⟩

/-- The addresses of the listeners; the first listener without one keeps the server from
starting. -/
def addresses (s : Server) : Except IoError (List Address) :=
  s.listeners.mapM (·.address)

/-- The cache of versions that a server starts with. -/
abbrev Versions := CachingResolver TokenParser

/-- Serves a client that was accepted at a moment. -/
def visit (s : Server) (stopAt : Nat) (versions : Versions) (start : Nat) (client : Client) :
    Visit × Versions :=
  let timeline : Timeline := { now := start, cancelAt := some stopAt }
  let (_, c) := Connection.run s.service
    (.ofClient s.service.settings versions ⟨client, timeline⟩)
  (⟨start, c.timeline.now, c.timeline.events⟩, c.versions)

/-- Serves what a listener comes up with. -/
def visitsOf (s : Server) (stopAt : Nat) (versions : Versions) :
    List (Nat × Except IoError Client) → List (Option Visit) × Versions
  | [] => ([], versions)
  | (_, .error _) :: rest => s.visitsOf stopAt versions rest
  | (start, .ok client) :: rest =>
    if start < stopAt then
      let (visit, versions) := s.visit stopAt versions start client
      let (visits, versions) := s.visitsOf stopAt versions rest
      (some visit :: visits, versions)
    else
      -- The loop has stopped before this client is there.
      let (visits, versions) := s.visitsOf stopAt versions rest
      (none :: visits, versions)

/-- Serves what the listeners come up with. -/
def allVisits (s : Server) (stopAt : Nat) (versions : Versions) :
    List (List (Nat × Except IoError Client)) → List (List (Option Visit))
  | [] => []
  | arrivals :: rest =>
    let (visits, versions) := s.visitsOf stopAt versions arrivals
    visits :: s.allVisits stopAt versions rest

/-! ### The moves of a run -/

/-- The moves of a loop before the end: each client gets its connection as soon as it is there. -/
def acceptMoves (stopAt loop : Nat) (arrivals : List (Nat × Except IoError Client)) :
    List (Nat × ServerMove) :=
  (arrivals.filter (·.1 < stopAt)).flatMap fun
    | (moment, .ok _) => [(moment, .accept loop), (moment, .start loop)]
    | (moment, .error _) => [(moment, .accept loop)]

/-- The ends of the connections of a loop. -/
def finishMoves (loop : Nat) (visits : List (Option Visit)) : List (Nat × ServerMove) :=
  (visits.filterMap id).zipIdx.map fun (visit, number) => (visit.finish, .finish ⟨loop, number⟩)

/-- All moves of a run in the order of their moments. -/
def moves (stopAt : Nat) (arrivals : List (List (Nat × Except IoError Client)))
    (visits : List (List (Option Visit))) : List (Nat × ServerMove) :=
  let accepts := (arrivals.zipIdx.map fun (a, loop) => acceptMoves stopAt loop a).flatten
  let stops := (List.range arrivals.length).map fun loop => (stopAt, ServerMove.stop loop)
  let finishes := (visits.zipIdx.map fun (v, loop) => finishMoves loop v).flatten
  (accepts ++ (stopAt, ServerMove.cancel) :: (stopAt, ServerMove.close) :: stops ++
    finishes).mergeSort fun a b => a.1 ≤ b.1

/-- The moment of the move behind which the server has stopped. -/
def stoppedAt (s : ServerState) : List (Nat × ServerMove) → Option Nat
  | [] => none
  | (moment, move) :: rest =>
    match s.step move with
    | none => none
    | some s' => if s'.isStopped then some moment else stoppedAt s' rest

/-- Runs the server until it has stopped, having been told so at a moment. -/
def run (s : Server) (stopAt : Nat) : ServerRun :=
  let arrivals := s.listeners.map fun l => Listener.arrivals 0 l.incoming
  let visits := s.allVisits stopAt { inner := {} } arrivals
  { visits
    stopped := stoppedAt (.initial (arrivals.map fun a => a.map (·.2)))
      (moves stopAt arrivals visits) }

end Server

end HttpWire
