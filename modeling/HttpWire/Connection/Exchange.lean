import HttpWire.Connection.Settings
import HttpWire.Connection.Outbox
import HttpWire.Reading.Buffered

/-!
# One exchange

An exchange receives a request, runs the pipeline on it and sends the response.  Only receiving can
be cut short: by the time limit of a kept connection, and by cancellation.  Once a request has been
received it is answered.
-/

namespace HttpWire

/-- A pipeline that every request finds as it is. -/
instance : Coe Pipeline (Nat → Pipeline) := ⟨fun pipeline _ => pipeline⟩

/-- What all connections of a server have in common. -/
structure Service where
  /-- The pipeline as a request finds it, by the number of requests of the connection that have been
  handed to it before.  Middleware may keep a state, share it with other connections and look at
  clocks, so it need not do the same twice. -/
  pipeline : Nat → Pipeline := fun _ => {}
  settings : ConnectionSettings := {}
  /-- Whether cancellation ends the wait for a request. -/
  heedsCancel : Bool := true
  /-- Whether cancellation comes before whatever else happens at its moment, by the number of
  exchanges before. -/
  cancelFirst : Nat → Bool := fun _ => true

/-- A connection with a client. -/
structure Connection (υ : Type) where
  reader : BufferedReader (Timed Client)
  outbox : Outbox := {}
  versions : υ
  /-- The number of exchanges that have been begun. -/
  exchanges : Nat := 0
  /-- The number of requests that have been handed to the pipeline. -/
  handled : Nat := 0

namespace Connection

variable {υ : Type}

/-- A connection with a client on which nothing has happened. -/
def ofClient (settings : ConnectionSettings) (versions : υ) (client : Timed Client) : Connection υ :=
  { reader := .ofSource client settings.readBuffer, versions }

/-- The client and its timeline. -/
def client (c : Connection υ) : Timed Client :=
  c.reader.source

/-- The connection with the client at another point. -/
def withClient (c : Connection υ) (client : Timed Client) : Connection υ :=
  { c with reader := { c.reader with source := client } }

/-- The timeline of the connection. -/
def timeline (c : Connection υ) : Timeline :=
  c.client.timeline

/-- Something happens on the timeline of the connection. -/
def onTimeline (c : Connection υ) (f : Timeline → Timeline) : Connection υ :=
  c.withClient ⟨c.client.subject, f c.timeline⟩

/-- Reports something. -/
def notify (c : Connection υ) (n : Notice) : Connection υ :=
  c.onTimeline (·.record (.notice n))

/-- The octets that have not been handed out. -/
def remaining (c : Connection υ) : Nat :=
  c.reader.remaining

/-- What an exchange came to. -/
inductive Outcome
  /-- A request was handled; `keepAlive` says whether the connection goes on. -/
  | handled (keepAlive : Bool)
  /-- There was no request. -/
  | noRequest
  /-- No request was received in time. -/
  | idle
  /-- The wait for a request was cancelled. -/
  | cancelled
  | failed (error : ServeError)
  /-- The wait for a request has no end. -/
  | stalled
deriving DecidableEq

/-- Sends a response to a request. -/
def send (request : Request) (response : Response) (cookies : CookieJar) (c : Connection υ) :
    Outcome × Connection υ :=
  let keepAlive := request.keepAlive && !response.close
  let reply : Reply :=
    { protocol := request.protocol, response, keepAlive, cookies := some cookies }
  match c.outbox.clear.put reply with
  | (.error e, outbox) => (.failed (.response e), { c with outbox })
  | (.ok (), outbox) =>
    match outbox.send c.client with
    | (.error e, outbox, client) =>
      (.failed (.response e), { c with outbox }.withClient client)
    | (.ok (), outbox, client) => (.handled keepAlive, { c with outbox }.withClient client)

/-- Runs the pipeline on a request and sends the response, if there is one.  It is sent as the
response to the request that the pipeline has left in the context, which may be another one. -/
def handle (pipeline : Pipeline) (request : Request) (c : Connection υ) :
    Outcome × Connection υ :=
  let (context, acts) := pipeline.execute (.ofRequest request c.client.subject.remote)
  let c : Connection υ := { c with handled := c.handled + 1 }
  let c := c.onTimeline fun t =>
    (acts.foldl .perform (t.record (.handed request))).record (.answered context)
  match context.response with
  -- Nothing is sent, and the request alone says whether the connection goes on.
  | none => (.handled context.request.keepAlive, c)
  | some response => c.send context.request response context.cookies

/-- The limits under which a request is received. -/
def receiveLimits (s : Service) (idleTimeout : Option Nat) (c : Connection υ) : Limits :=
  { deadline := idleTimeout.map (c.timeline.now + ·)
    cancellable := s.heedsCancel
    cancelFirst := s.cancelFirst c.exchanges }

/-- The connection at the beginning of an exchange. -/
def beginExchange (s : Service) (idleTimeout : Option Nat) (c : Connection υ) : Connection υ :=
  { c with exchanges := c.exchanges + 1 }.onTimeline (·.under (c.receiveLimits s idleTimeout))

/-- Whether the wait for a request is cancelled before it begins. -/
def isCancelledFirst (c : Connection υ) : Bool :=
  c.timeline.limits.cancellable && c.timeline.limits.cancelFirst && c.timeline.isCancelled

/-- Receives a request within the limits, which do not hold behind it. -/
def receiveRequest [VersionResolver υ] (s : Service) (c : Connection υ) :
    Except (Stop ReceiveError) Received × Connection υ :=
  let (received, versions, reader) := receive s.settings.allowTrailers c.versions c.reader
  (received, { c with versions, reader }.onTimeline (·.under {}))

/-- Does one exchange. -/
def exchange [VersionResolver υ] (s : Service) (idleTimeout : Option Nat) (c : Connection υ) :
    Outcome × Connection υ :=
  let c := c.beginExchange s idleTimeout
  if c.isCancelledFirst then (.cancelled, c.onTimeline (·.under {}))
  else
    match c.receiveRequest s with
    | (.error (.fault e), c) => (.failed (.request e), c)
    | (.error (.interrupted .timedOut), c) => (.idle, c)
    | (.error (.interrupted .cancelled), c) => (.cancelled, c)
    | (.error (.interrupted .stalled), c) => (.stalled, c)
    | (.ok (.nothing why), c) => (.noRequest, why.notice?.elim c c.notify)
    | (.ok (.request request), c) => c.handle (s.pipeline c.handled) request

/-! ### What an exchange takes -/

@[simp] theorem remaining_onTimeline (c : Connection υ) (f : Timeline → Timeline) :
    (c.onTimeline f).remaining = c.remaining := rfl

theorem remaining_send (request : Request) (response : Response) (cookies : CookieJar)
    (c : Connection υ) : (c.send request response cookies).2.remaining = c.remaining := by
  unfold send
  simp only
  split
  · rfl
  · next outbox _ =>
    have h := outbox.available_send c.client
    split <;> next hf =>
      rw [hf] at h
      exact congrArg (c.reader.buffer.length + ·) h

/-- Handling a request reads nothing. -/
theorem remaining_handle (pipeline : Pipeline) (request : Request) (c : Connection υ) :
    (c.handle pipeline request).2.remaining = c.remaining := by
  unfold handle
  simp only
  split
  · rfl
  · exact remaining_send ..

theorem remaining_receiveRequest_le [VersionResolver υ] (s : Service) (c : Connection υ) :
    (c.receiveRequest s).2.remaining ≤ c.remaining :=
  remaining_receive_le s.settings.allowTrailers c.versions c.reader

theorem remaining_receiveRequest_lt [VersionResolver υ] {s : Service} {c c' : Connection υ}
    {request : Request} (h : c.receiveRequest s = (.ok (.request request), c')) :
    c'.remaining < c.remaining := by
  generalize hr : receive s.settings.allowTrailers c.versions c.reader = answer
  obtain ⟨received, versions, reader⟩ := answer
  simp only [receiveRequest, hr, Prod.mk.injEq] at h
  obtain ⟨rfl, rfl⟩ := h
  exact remaining_receive_lt hr

/-- An exchange gives nothing back. -/
theorem remaining_exchange_le [VersionResolver υ] (s : Service) (idleTimeout : Option Nat)
    (c : Connection υ) : (c.exchange s idleTimeout).2.remaining ≤ c.remaining := by
  have h := remaining_receiveRequest_le s (c.beginExchange s idleTimeout)
  unfold exchange
  simp only
  split
  · exact Nat.le_refl _
  · split
    case h_5 why c' hr =>
      rw [hr] at h
      cases why.notice? <;> exact h
    case h_6 request c' hr =>
      rw [hr] at h
      rw [remaining_handle]
      exact h
    all_goals
      next hr =>
        rw [hr] at h
        exact h

/-- An exchange that handles a request takes something. -/
theorem remaining_exchange_lt [VersionResolver υ] {s : Service} {idleTimeout : Option Nat}
    {c c' : Connection υ} {keepAlive : Bool}
    (h : c.exchange s idleTimeout = (.handled keepAlive, c')) : c'.remaining < c.remaining := by
  unfold exchange at h
  simp only at h
  split at h
  · cases h
  · split at h
    case h_6 request c₁ hr =>
      have hlt := remaining_receiveRequest_lt hr
      have he := remaining_handle (s.pipeline c₁.handled) request c₁
      rw [h] at he
      rw [he]
      exact hlt
    all_goals cases h

end Connection

end HttpWire
