import HttpWire.Connection.Basic
import HttpWire.Pipeline.Probe
import HttpWire.Pipeline.Stock
import HttpWire.Proofs.Connection.Sending
import HttpWire.Proofs.Cookies.Received
import HttpWire.Proofs.Version.Faithful

/-!
# Answering a request

A request is run through the pipeline as it finds it (`Service.executions`).  The context in which
the pipeline leaves it decides what is sent and whether the connection goes on behind it: both are
said of the request in that context, which need not be the one that was received
(`Context.reply?`, `Context.StaysOpen`).

`Serving` is the invariant of a connection between exchanges, and handling a request keeps it
(`Serving.handle`).
-/

namespace HttpWire

open FaithfulResolver (Faithful)

/-! ### Replies -/

/-- Without changed cookies a reply can be written. -/
theorem Reply.encode_eq_ok {r : Reply} (h : r.setCookies = []) : r.encode.1 = .ok () := by
  rw [encode, encodeHead, h]
  rfl

/-! ### What a context asks for -/

namespace Context

variable (c : Context)

/-- The connection goes on behind a context: its request asks for that, and its response, if there
is one, does not ask for the opposite. -/
def StaysOpen : Prop :=
  c.request.headers.Lists .connection "keep-alive".toList ∧
    ∀ response ∈ c.response, response.close = false

instance : Decidable c.StaysOpen :=
  inferInstanceAs (Decidable (_ ∧ _))

/-- The reply to the request of a context, if there is a response to it. -/
def reply? : Option Reply :=
  c.response.map fun response =>
    { protocol := c.request.protocol, response, keepAlive := decide c.StaysOpen
      cookies := some c.cookies }

/-- The octets that are sent for a context. -/
def octets : Bytes :=
  (c.reply?.map fun reply => reply.encode.2).getD []

variable {c}

theorem decide_staysOpen_of_none (h : c.response = none) :
    decide c.StaysOpen = c.request.keepAlive := by
  rw [Bool.eq_iff_iff, decide_eq_true_iff, Request.keepAlive, Headers.listsToken_iff, StaysOpen, h]
  exact and_iff_left nofun

theorem decide_staysOpen_of_some {response : Response} (h : c.response = some response) :
    decide c.StaysOpen = (c.request.keepAlive && !response.close) := by
  rw [Bool.eq_iff_iff, decide_eq_true_iff, Bool.and_eq_true, Request.keepAlive,
    Headers.listsToken_iff, Bool.not_eq_true', StaysOpen, h]
  simp only [Option.mem_def, Option.some.injEq, forall_eq']

theorem reply?_of_some {response : Response} (h : c.response = some response) :
    c.reply? = some
      { protocol := c.request.protocol, response, cookies := some c.cookies
        keepAlive := c.request.keepAlive && !response.close } := by
  rw [reply?, decide_staysOpen_of_some h, h]
  rfl

theorem octets_of_reply {reply : Reply} (h : c.reply? = some reply) :
    c.octets = reply.encode.2 := by
  rw [octets, h]
  rfl

end Context

/-! ### Running pipelines -/

/-- A request that has been run through a pipeline. -/
structure Execution where
  request : Request
  /-- The context in which the pipeline has left it. -/
  context : Context
  acts : List Act

namespace Execution

/-- The work of the server was not cancelled meanwhile, and the reply can be written. -/
structure Answers (x : Execution) : Prop where
  acts : .cancel ∉ x.acts
  encodable : ∀ reply, x.context.reply? = some reply → reply.encode.1 = .ok ()

/-- What is seen of a request that is served: it is handed to the pipeline, and then its answer is
accepted. -/
def sights (x : Execution) : List Sight :=
  .handed x.request :: x.context.octets.map .accepted

/-- Those through the first behind which the connection does not go on. -/
def through : List Execution → List Execution
  | [] => []
  | x :: xs => if x.context.StaysOpen then x :: through xs else [x]

end Execution

/-- A request run through the pipeline. -/
def Pipeline.executionOf (p : Pipeline) (remote : Option Address) (q : Request) : Execution where
  request := q
  context := (p.execute (.ofRequest q remote)).1
  acts := (p.execute (.ofRequest q remote)).2

/-- A server that sends requests back answers every request. -/
theorem Pipeline.answers_echo (id : Nat) (remote : Option Address) (q : Request) :
    (executionOf ⟨[.echo id]⟩ remote q).Answers where
  acts := by
    show Act.cancel ∉ [.mark (.entered id true), .mark (.left id (some .ok))]
    simp only [List.mem_cons, List.not_mem_nil, reduceCtorEq, or_self, not_false_eq_true]
  encodable reply hreply := by
    obtain rfl := Option.some.inj hreply
    exact Reply.encode_eq_ok (CookieJar.setCookies_ofHeaders q.headers)

/-- A server for which there is nothing answers every request. -/
theorem Pipeline.answers_notFound (remote : Option Address) (q : Request) :
    (executionOf ⟨[.notFound]⟩ remote q).Answers where
  acts := List.not_mem_nil
  encodable reply hreply := by
    obtain rfl := Option.some.inj hreply
    exact Reply.encode_eq_ok (CookieJar.setCookies_ofHeaders q.headers)

namespace Service

variable (s : Service) (remote : Option Address)

/-- Requests that are handed to the pipeline in a row, behind some others. -/
def executions : Nat → List Request → List Execution
  | _, [] => []
  | before, q :: qs => (s.pipeline before).executionOf remote q :: executions (before + 1) qs

/-- The requests of a row on a new connection that are served. -/
def served (qs : List Request) : List Execution :=
  Execution.through (s.executions remote 0 qs)

variable {s remote}

theorem executions_append (before : Nat) (qs qs' : List Request) :
    s.executions remote before (qs ++ qs') =
      s.executions remote before qs ++ s.executions remote (before + qs.length) qs' := by
  induction qs generalizing before with
  | nil => rfl
  | cons q qs ih =>
    rw [List.cons_append, executions, ih, executions, List.cons_append, List.length_cons,
      Nat.add_assoc, Nat.add_comm 1]

/-- If the pipelines answer whatever they are handed, they answer all of a row. -/
theorem answers_of_mem_executions (h : ∀ n q, ((s.pipeline n).executionOf remote q).Answers)
    {before : Nat} {qs : List Request} {x : Execution} (hx : x ∈ s.executions remote before qs) :
    x.Answers := by
  induction qs generalizing before with
  | nil => exact absurd hx List.not_mem_nil
  | cons q qs ih =>
    rcases List.mem_cons.mp hx with rfl | hx
    · exact h before q
    · exact ih hx

/-- What is served is run. -/
theorem mem_of_mem_served {qs : List Request} {x : Execution} (hx : x ∈ s.served remote qs) :
    x ∈ s.executions remote 0 qs := by
  rw [served] at hx
  generalize s.executions remote 0 qs = xs at hx ⊢
  induction xs with
  | nil => exact hx
  | cons y ys ih =>
    rw [Execution.through] at hx
    split at hx
    · exact (List.mem_cons.mp hx).elim (· ▸ List.mem_cons_self) (List.mem_cons_of_mem y ∘ ih)
    · exact List.mem_singleton.mp hx ▸ List.mem_cons_self

end Service

/-! ### The invariant -/

namespace Connection

/-- The connection behind the pipeline, which has left traces on the timeline. -/
def ran {υ : Type} (x : Execution) (c : Connection υ) : Connection υ :=
  { c with handled := c.handled + 1 }.onTimeline fun t =>
    (x.acts.foldl Timeline.perform (t.record (.handed x.request))).record (.answered x.context)

section Handling

variable {υ : Type} {p : Pipeline} {q : Request} {c : Connection υ} {x : Execution}

/-- A request without a reply is handled when the pipeline has been run. -/
theorem handle_of_noReply (hx : x = p.executionOf c.client.subject.remote q)
    (hreply : x.context.reply? = none) :
    c.handle p q = (.handled (decide x.context.StaysOpen), c.ran x) := by
  subst hx
  have hnone := Option.map_eq_none_iff.mp hreply
  rw [Context.decide_staysOpen_of_none hnone]
  simp only [Pipeline.executionOf] at hnone ⊢
  simp only [handle, hnone]
  rfl

/-- A request with a reply is handled when that has been put into the outbox and sent. -/
theorem handle_of_reply {reply : Reply} (hx : x = p.executionOf c.client.subject.remote q)
    (hreply : x.context.reply? = some reply) :
    c.handle p q =
      match (c.ran x).outbox.clear.put reply with
      | (.error e, outbox) => (.failed (.response e), { c.ran x with outbox })
      | (.ok (), outbox) =>
        match outbox.send (c.ran x).client with
        | (.error e, outbox, client) =>
          (.failed (.response e), { c.ran x with outbox }.withClient client)
        | (.ok (), outbox, client) =>
          (.handled (decide x.context.StaysOpen), { c.ran x with outbox }.withClient client) := by
  subst hx
  obtain ⟨response, hsome, -⟩ := Option.map_eq_some_iff.mp hreply
  rw [Context.reply?_of_some hsome] at hreply
  obtain rfl := Option.some.inj hreply
  rw [Context.decide_staysOpen_of_some hsome]
  simp only [Pipeline.executionOf] at hsome ⊢
  simp only [handle, hsome]
  rfl

end Handling

variable {υ : Type} [VersionResolver υ] [FaithfulResolver υ]

/-- A connection between exchanges: it has handed `count` requests to the pipeline, `seen` is what
has been seen since the moment `start`, and `rest` is what the reader can still hand out.  The
client is there as long as its end has not been met. -/
structure Serving (start : Timeline) (remote : Option Address) (count : Nat) (seen : List Sight)
    (rest : Bytes) (c : Connection υ) : Prop where
  handled : c.handled = count
  faithful : Faithful c.versions
  client : Client.Since start remote seen c.client
  steady : c.reader.atEnd = false → ∃ p, c.client.subject.peer? = some p ∧ p.IsSteady
  drained : c.reader.Drained
  pending : c.reader.pending = rest

namespace Serving

variable {start : Timeline} {remote : Option Address} {count : Nat} {seen : List Sight}
  {rest : Bytes} {c : Connection υ}

/-- Something happens on the timeline. -/
theorem onTimeline {f : Timeline → Timeline} {seen' : List Sight}
    (h : Serving start remote count seen rest c) (hadds : c.timeline.Adds (f c.timeline) seen') :
    Serving start remote count (seen ++ seen') rest (c.onTimeline f) where
  handled := h.handled
  faithful := h.faithful
  client := ⟨h.client.peer, h.client.remote, h.client.adds.trans hadds⟩
  steady := h.steady
  drained := h.drained
  pending := h.pending

/-- Something happens on the timeline that is not seen. -/
theorem onTimeline_nil {f : Timeline → Timeline} (h : Serving start remote count seen rest c)
    (hadds : c.timeline.Adds (f c.timeline) []) :
    Serving start remote count seen rest (c.onTimeline f) := by
  have h' := h.onTimeline hadds
  rwa [List.append_nil] at h'

/-- Something is delivered to the client. -/
theorem delivers {octets : Bytes} {client : Timed Client} (box : Outbox)
    (h : Serving start remote count seen rest c) (hd : Client.Delivers c.client octets client) :
    Serving start remote count (seen ++ octets.map .accepted) rest
      ({ c with outbox := box }.withClient client) where
  handled := h.handled
  faithful := h.faithful
  client := hd.since h.client
  steady hend := hd.isSteady (h.steady hend)
  drained := h.drained
  pending := by
    have hp := h.pending
    unfold BufferedReader.pending at hp ⊢
    rw [← hp]
    show c.reader.buffer ++ (if c.reader.atEnd then [] else client.subject.upcoming) = _
    rw [hd.upcoming]
    rfl

theorem cancelAt (h : Serving start remote count seen rest c) : c.timeline.cancelAt = none :=
  h.client.adds.cancelAt'

theorem horizon (h : Serving start remote count seen rest c) : c.timeline.horizon = none :=
  h.client.adds.horizon'

/-! ### Handling -/

/-- The pipeline is run on a request. -/
theorem ran {x : Execution} (h : Serving start remote count seen rest c)
    (hacts : .cancel ∉ x.acts) :
    Serving start remote (count + 1) (seen ++ [.handed x.request]) rest (c.ran x) := by
  have h' : Serving start remote (count + 1) seen rest { c with handled := c.handled + 1 } :=
    { h with handled := congrArg (· + 1) h.handled }
  -- The timeline behind the pipeline has the request on it, and nothing else of note.
  have hhanded : c.timeline.Adds (c.timeline.record (.handed x.request)) [.handed x.request] :=
    Timeline.adds_record h.cancelAt h.horizon (.handed x.request)
  have hperformed := Timeline.adds_foldl_perform hhanded.cancelAt' hhanded.horizon' hacts
  have hanswered := Timeline.adds_record hperformed.cancelAt' hperformed.horizon'
    (.answered x.context)
  exact h'.onTimeline ((hhanded.trans_nil hperformed).trans_nil hanswered)

/-- **A request that is handled is answered**: it is handed to the pipeline, and what the pipeline
answers is accepted by the client. -/
theorem handle {p : Pipeline} {q : Request} (h : Serving start remote count seen rest c)
    (hp : (p.executionOf remote q).Answers) :
    ∃ c', c.handle p q = (.handled (decide (p.executionOf remote q).context.StaysOpen), c') ∧
      Serving start remote (count + 1) (seen ++ (p.executionOf remote q).sights) rest c' := by
  generalize hx : p.executionOf remote q = x at hp ⊢
  have hrequest : x.request = q := by rw [← hx, Pipeline.executionOf]
  rw [← h.client.remote] at hx
  have hran := h.ran hp.acts
  cases hreply : x.context.reply? with
  | none =>
    refine ⟨_, handle_of_noReply hx.symm hreply, ?_⟩
    rwa [Execution.sights, Context.octets, hreply]
  | some reply =>
    have hput : (c.ran x).outbox.clear.put reply = (.ok (), ⟨reply.encode.2⟩) :=
      Prod.ext (hp.encodable reply hreply) rfl
    obtain ⟨client, hsend, hd⟩ := Outbox.delivers_send ⟨reply.encode.2⟩ hran.client
    refine ⟨{ c.ran x with outbox := {} }.withClient client, ?_, ?_⟩
    · rw [handle_of_reply hx.symm hreply, hput]
      simp only [hsend]
    · have hdelivered := hran.delivers {} hd
      rwa [List.append_assoc, ← Context.octets_of_reply hreply] at hdelivered

end Serving

end Connection

end HttpWire
