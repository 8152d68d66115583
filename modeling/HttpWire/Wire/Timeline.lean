import HttpWire.Reading.Source
import HttpWire.Wire.Event

/-!
# Time

A timeline has a clock in milliseconds and the events so far, each with its moment.  Work takes no
time; the clock moves when something waits.

A wait can end in four ways: it reaches its end, its deadline passes, it is cancelled, or nothing
will ever end it.  What comes first ends it.  When its end and its deadline come at once, it
reaches its end.  When cancellation comes at the same moment as another of these, either may be
first: `cancelFirst` says which.

A timeline may have a horizon.  Nothing behind the horizon is seen, so nothing behind it is kept.
-/

namespace HttpWire

/-- What may cut a wait short. -/
structure Limits where
  /-- The last moment at which the wait may end. -/
  deadline : Option Nat := none
  /-- Whether cancellation ends the wait. -/
  cancellable : Bool := false
  /-- Whether cancellation comes before anything else of the same moment. -/
  cancelFirst : Bool := false
deriving DecidableEq

/-- A clock and what has happened by it. -/
structure Timeline where
  now : Nat := 0
  /-- The moment of cancellation, past or to come. -/
  cancelAt : Option Nat := none
  limits : Limits := {}
  /-- The last moment that is seen. -/
  horizon : Option Nat := none
  events : List (Nat × Event) := []
deriving DecidableEq

/-- A thing and the timeline on which things happen to it. -/
structure Timed (α : Type) where
  subject : α
  timeline : Timeline

/-- The same moment of another thing. -/
def Timed.map {α β : Type} (f : α → β) (t : Timed α) : Timed β :=
  ⟨f t.subject, t.timeline⟩

namespace Timeline

/-- Whether the clock has passed the horizon. -/
def isOver (t : Timeline) : Bool :=
  match t.horizon with
  | none => false
  | some h => h < t.now

/-- Adds an event of this moment. -/
def record (t : Timeline) (e : Event) : Timeline :=
  if t.isOver then t else { t with events := t.events ++ [(t.now, e)] }

/-- Adds something done to a peer. -/
def wire (t : Timeline) (e : WireEvent) : Timeline :=
  t.record (.wire e)

/-- Lets time pass, whatever the limits are. -/
def pass (t : Timeline) (ms : Nat) : Timeline :=
  { t with now := t.now + ms }

/-- Cancels, now at the latest. -/
def cancel (t : Timeline) : Timeline :=
  { t with cancelAt := some (match t.cancelAt with | none => t.now | some c => min c t.now) }

/-- Whether cancellation has come. -/
def isCancelled (t : Timeline) : Bool :=
  match t.cancelAt with
  | none => false
  | some c => c ≤ t.now

/-- The timeline under other limits. -/
def under (t : Timeline) (limits : Limits) : Timeline :=
  { t with limits }

/-! ### Waiting -/

/-- A moment that ends a wait, and how. -/
structure Alarm where
  moment : Nat
  effect : Except Interruption Unit

/-- The first of the alarms of the earliest moment. -/
def earliest? : List Alarm → Option Alarm
  | [] => none
  | a :: rest =>
    match earliest? rest with
    | none => some a
    | some b => if b.moment < a.moment then some b else some a

/-- The alarm of cancellation, if the limits heed it. -/
def cancelAlarm (t : Timeline) : List Alarm :=
  if t.limits.cancellable then t.cancelAt.toList.map fun c => ⟨max c t.now, .error .cancelled⟩
  else []

/-- The alarms that can end a wait for a moment, those that come first at their moment in front. -/
def alarms (t : Timeline) (until? : Option Nat) : List Alarm :=
  let reached := until?.toList.map fun m => ⟨m, .ok ()⟩
  let late := t.limits.deadline.toList.map fun d => ⟨max d t.now, .error .timedOut⟩
  if t.limits.cancelFirst then t.cancelAlarm ++ reached ++ late
  else reached ++ late ++ t.cancelAlarm

/-- Waits for a moment, or for ever. -/
def wait (t : Timeline) (until? : Option Nat) : Except Interruption Unit × Timeline :=
  match earliest? (t.alarms until?) with
  | none => (.error .stalled, t)
  | some a => (a.effect, { t with now := a.moment })

/-- Waits for some time. -/
def sleep (t : Timeline) (ms : Nat) : Except Interruption Unit × Timeline :=
  if ms = 0 then (.ok (), t) else t.wait (some (t.now + ms))

/-! ### Acts -/

/-- Does what handling reported. -/
def perform (t : Timeline) : Act → Timeline
  | .mark m => t.record (.mark m)
  | .pause ms => t.pass ms
  | .cancel => t.cancel

/-! ### Views -/

/-- What was done to the peer, with its moments. -/
def wireEvents (events : List (Nat × Event)) : List (Nat × WireEvent) :=
  events.filterMap fun
    | (moment, .wire e) => some (moment, e)
    | _ => none

/-- The marks that handling left. -/
def marks (events : List (Nat × Event)) : List Mark :=
  events.filterMap fun
    | (_, .mark m) => some m
    | _ => none

/-- What was reported. -/
def notices (events : List (Nat × Event)) : List Notice :=
  events.filterMap fun
    | (_, .notice n) => some n
    | _ => none

end Timeline

end HttpWire
