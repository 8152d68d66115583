import HttpWire.Pipeline.Context

/-!
# Pipelines

A pipeline is a list of middleware.  Each middleware gets the context and a handle on what follows
it (`Next`), and may run that, once or more or not at all.  Handling changes the context; whatever
else it does is reported as a list of acts in the order in which they are done: it leaves a mark,
lets time pass, or cancels the work of the server.

Handling is a function here, so it always comes to its end, and what it runs it runs to the end: a
stage that hangs, or stops what follows it before that is done, is not described.  What a stage
keeps from one request to the next, shares with other connections, or takes from a clock is not in
the context.  It is part of which pipeline a request finds, and another request may find another
one.
-/

namespace HttpWire

/-- A trace that a middleware leaves. -/
inductive Mark
  /-- The middleware was entered; `last` says that nothing follows it. -/
  | entered (id : Nat) (last : Bool)
  /-- The middleware was left, with a response of that status in the context. -/
  | left (id : Nat) (status : Option Status)
  /-- The middleware responded by itself. -/
  | responded (id : Nat)
  /-- The middleware took the response away. -/
  | took (id : Nat) (response : Option Response)
  /-- The middleware did something to a cookie, and found that value. -/
  | cookie (id : Nat) (value : Option Text)
deriving DecidableEq

/-- Something that handling does besides changing the context. -/
inductive Act
  | mark (m : Mark)
  | pause (ms : Nat)
  | cancel
deriving DecidableEq

/-- Handling: the context behind it and what was done. -/
abbrev Handler := Context → Context × List Act

namespace Handler

/-- Leaves the context alone. -/
def skip : Handler := fun c => (c, [])

/-- Does something. -/
def act (a : Act) : Handler := fun c => (c, [a])

/-- Changes the context. -/
def change (f : Context → Context) : Handler := fun c => (f c, [])

/-- Handles by `f` and then by `g`. -/
def andThen (f g : Handler) : Handler := fun c =>
  let (c₁, acts₁) := f c
  let (c₂, acts₂) := g c₁
  (c₂, acts₁ ++ acts₂)

end Handler

/-- What follows a middleware. -/
structure Next where
  /-- Whether nothing follows. -/
  isEmpty : Bool
  run : Handler

/-- The end of every pipeline: nothing, which does nothing. -/
def Next.done : Next := { isEmpty := true, run := Handler.skip }

/-- A stage of a pipeline. -/
structure Middleware where
  handle : Next → Handler

/-- Middleware in the order in which it is entered. -/
structure Pipeline where
  middleware : List Middleware := []

namespace Pipeline

/-- Middleware in front of what follows it. -/
def nextWith (inner : Next) : List Middleware → Next
  | [] => inner
  | m :: rest => { isEmpty := false, run := m.handle (nextWith inner rest) }

/-- Runs the pipeline. -/
def execute (p : Pipeline) : Handler :=
  (nextWith .done p.middleware).run

/-- The pipeline with a middleware in front of all others. -/
def addFirst (p : Pipeline) (m : Middleware) : Pipeline :=
  ⟨m :: p.middleware⟩

/-- The pipeline with a middleware behind all others. -/
def addLast (p : Pipeline) (m : Middleware) : Pipeline :=
  ⟨p.middleware ++ [m]⟩

/-- The number of middleware. -/
def length (p : Pipeline) : Nat :=
  p.middleware.length

/-- Whether there is no middleware. -/
def isEmpty (p : Pipeline) : Bool :=
  p.middleware.isEmpty

end Pipeline

end HttpWire
