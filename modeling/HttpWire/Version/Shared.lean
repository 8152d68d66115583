import HttpWire.Version.Resolver

/-!
# A cache that is shared

Several calls may be under way in a cache at the same time.  A call takes the lock of the map just
long enough to find or to make the slot for its token in small letters.  Then it reaches the cell of
the slot: the first call to do so asks the other resolver and fills the cell, calls that come while
it does that wait, and later ones find the answer.

`SharedCache.step` is one move of this, in whatever order moves come.  A move that is not possible
in a state has no successor.  `CachingResolver` is what the cache is when calls do not overlap.
-/

namespace HttpWire

/-- Remembers the questions to another resolver and its answers. -/
structure RecordingResolver (υ : Type) where
  inner : υ
  asked : List (Text × Except VersionError Version) := []

instance {υ : Type} [VersionResolver υ] : VersionResolver (RecordingResolver υ) where
  resolve token p :=
    let (answer, inner) := VersionResolver.resolve token p.inner
    (answer, { inner, asked := p.asked ++ [(token, answer)] })

/-- A cell that is filled once. -/
inductive Cell
  | vacant
  /-- A call is about to fill it. -/
  | taken
  | filled (answer : Except VersionError Version)

/-- The place for the answer to a token in small letters. -/
structure Slot where
  key : Text
  cell : Cell := .vacant

/-- Where a call stands. -/
inductive CallStage
  /-- It has its slot. -/
  | holding
  /-- It asks the other resolver. -/
  | asking
  /-- It waits for the call that asks. -/
  | waiting
  | returned (answer : Except VersionError Version)

/-- A call, with the number of its slot. -/
structure CacheCall where
  token : Text
  slot : Nat
  stage : CallStage := .holding

/-- A cache in the middle of calls. -/
structure SharedCache (υ : Type) where
  inner : υ
  slots : List Slot := []
  /-- All calls that have taken the lock so far, in that order. -/
  calls : List CacheCall := []

/-- A move of a call. -/
inductive CacheMove
  /-- A call takes the lock of the map. -/
  | call (token : Text)
  /-- A call reaches the cell of its slot. -/
  | reach (call : Nat)
  /-- A call asks the other resolver and fills the cell. -/
  | ask (call : Nat)
  /-- A call that waits finds the cell filled. -/
  | wake (call : Nat)

namespace SharedCache

variable {υ : Type} [VersionResolver υ]

/-- A call finds the slot for its token, or makes it. -/
def call (s : SharedCache υ) (token : Text) : SharedCache υ :=
  match s.slots.findIdx? (·.key == Text.lower token) with
  | some i => { s with calls := s.calls ++ [{ token, slot := i }] }
  | none => { s with
      slots := s.slots ++ [{ key := Text.lower token }]
      calls := s.calls ++ [{ token, slot := s.slots.length }] }

/-- The cache with a call in another stage. -/
def setStage (s : SharedCache υ) (j : Nat) (c : CacheCall) (stage : CallStage) : SharedCache υ :=
  { s with calls := s.calls.set j { c with stage } }

/-- The cache with something else in the cell of a slot. -/
def setCell (s : SharedCache υ) (i : Nat) (slot : Slot) (cell : Cell) : SharedCache υ :=
  { s with slots := s.slots.set i { slot with cell } }

/-- A call that has its slot fills the cell, waits for it or takes what is in it. -/
def reach (s : SharedCache υ) (j : Nat) : Option (SharedCache υ) :=
  match s.calls[j]? with
  | none => none
  | some c =>
    match c.stage, s.slots[c.slot]? with
    | .holding, some slot =>
      match slot.cell with
      | .vacant => some ((s.setCell c.slot slot .taken).setStage j c .asking)
      | .taken => some (s.setStage j c .waiting)
      | .filled answer => some (s.setStage j c (.returned answer))
    | _, _ => none

/-- A call asks with the token in its own spelling. -/
def ask (s : SharedCache υ) (j : Nat) : Option (SharedCache υ) :=
  match s.calls[j]? with
  | none => none
  | some c =>
    match c.stage, s.slots[c.slot]? with
    | .asking, some slot =>
      let (answer, inner) := VersionResolver.resolve c.token s.inner
      some (({ s with inner }.setCell c.slot slot (.filled answer)).setStage j c (.returned answer))
    | _, _ => none

/-- A call that waits takes what has come into the cell. -/
def wake (s : SharedCache υ) (j : Nat) : Option (SharedCache υ) :=
  match s.calls[j]? with
  | none => none
  | some c =>
    match c.stage, s.slots[c.slot]? with
    | .waiting, some slot =>
      match slot.cell with
      | .filled answer => some (s.setStage j c (.returned answer))
      | _ => none
    | _, _ => none

/-- One move. -/
def step (s : SharedCache υ) : CacheMove → Option (SharedCache υ)
  | .call token => some (s.call token)
  | .reach j => s.reach j
  | .ask j => s.ask j
  | .wake j => s.wake j

/-- One move after the other, as long as they are possible. -/
def steps (s : SharedCache υ) (moves : List CacheMove) : Option (SharedCache υ) :=
  moves.foldlM step s

end SharedCache

namespace CachingResolver

variable {υ : Type} [VersionResolver υ]

/-- Resolves one token after the other. -/
def resolveEach : List Text → CachingResolver υ →
    List (Except VersionError Version) × CachingResolver υ
  | [], c => ([], c)
  | token :: tokens, c =>
    let (answer, c) := c.resolve token
    let (answers, c) := resolveEach tokens c
    (answer :: answers, c)

end CachingResolver

end HttpWire
