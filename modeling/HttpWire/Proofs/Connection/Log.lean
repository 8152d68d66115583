import HttpWire.Proofs.Connection.Answering
import HttpWire.Proofs.Connection.Turns
import HttpWire.Proofs.Reading.Stopping
import HttpWire.Proofs.Wire.Later

/-!
# The log of an exchange

What an exchange leaves on the timeline tells what became of it, whatever the client does.
Receiving leaves reads, of which the last may fail (`Receiving`).  Handling leaves the request, what
its handling reports and the context behind it, and then what was written of the reply
(`Handling`): the reply in full, followed by whether the client has taken delivery, or a part of it
in front of the write that was not accepted.  A reply that cannot be written leaves nothing.

The pipeline may be another one each time, so a stretch of the log is told together with the number
of requests in front of it (`LeavesContexts`).
-/

namespace HttpWire

variable {es : List (Nat × Event)}

/-! ### Kinds of events -/

namespace Event

/-- A read that has been answered. -/
def IsRead (e : Event) : Prop :=
  ∃ count, e = .wire (.read count)

/-- A write of which the client accepts something. -/
def IsWrite (e : Event) : Prop :=
  ∃ b bs, e = .wire (.wrote (b :: bs))

/-- A write that fails, or of which the client accepts nothing. -/
inductive IsLostWrite : Event → Prop
  | fault : IsLostWrite (.wire .writeFault)
  | nothing : IsLostWrite (.wire (.wrote []))

theorem IsRead.isUnseen {e : Event} (h : e.IsRead) : e.IsUnseen := by
  obtain ⟨count, rfl⟩ := h
  rfl

theorem IsLostWrite.isUnseen {e : Event} (h : e.IsLostWrite) : e.IsUnseen := by
  cases h <;> rfl

theorem IsRead.context?_eq {e : Event} (h : e.IsRead) : e.context? = none := by
  obtain ⟨count, rfl⟩ := h
  rfl

theorem IsWrite.context?_eq {e : Event} (h : e.IsWrite) : e.context? = none := by
  obtain ⟨b, bs, rfl⟩ := h
  rfl

theorem IsLostWrite.context?_eq {e : Event} (h : e.IsLostWrite) : e.context? = none := by
  cases h <;> rfl

end Event

theorem requestsIn_writes (h : ∀ e ∈ es, e.2.IsWrite) : requestsIn es = [] := by
  induction es with
  | nil => rfl
  | cons e es ih =>
    obtain ⟨⟨b, bs, he⟩, hes⟩ := List.forall_mem_cons.mp h
    have hhead : requestsIn [e] = [] := by
      rw [show e = (e.1, .wire (.wrote (b :: bs))) from Prod.ext rfl he]
      exact requestsIn_wrote ..
    rw [← List.singleton_append, requestsIn_append, hhead, ih hes]
    rfl

/-! ### Writing -/

/-- How offering octets until all have been accepted went. -/
inductive Writes (octets : Bytes) : Except IoError Unit → List (Nat × Event) → Prop
  | all {ws} (hwrites : ∀ e ∈ ws, e.2.IsWrite) (hoctets : octetsIn ws = octets) :
    Writes octets (.ok ()) ws
  | cut {ws e error rest} (hwrites : ∀ e ∈ ws, e.2.IsWrite) (hlost : e.2.IsLostWrite)
    (hrest : rest ≠ []) (hoctets : octets = octetsIn ws ++ rest) :
    Writes octets (.error error) (ws ++ [e])

/-- A write that is accepted stands in front of the writes that follow. -/
theorem Writes.cons {taken octets : Bytes} {result : Except IoError Unit} {m : Nat}
    (hne : taken ≠ []) (h : Writes octets result es) :
    Writes (taken ++ octets) result ((m, .wire (.wrote taken)) :: es) := by
  obtain ⟨b, bs, rfl⟩ := List.exists_cons_of_ne_nil hne
  have hoctets (ws : List (Nat × Event)) :
      octetsIn ((m, .wire (.wrote (b :: bs))) :: ws) = (b :: bs) ++ octetsIn ws := by
    rw [← List.singleton_append, octetsIn_append, octetsIn_wrote]
  cases h with
  | all hwrites ho =>
    refine .all (List.forall_mem_cons.mpr ⟨⟨b, bs, rfl⟩, hwrites⟩) ?_
    rw [hoctets, ho]
  | cut hwrites hlost hrest ho =>
    refine .cut (List.forall_mem_cons.mpr ⟨⟨b, bs, rfl⟩, hwrites⟩) hlost hrest ?_
    rw [hoctets, ho, List.append_assoc]

/-- How sending octets that wait went. -/
inductive Delivery (octets : Bytes) : Except SendError Unit → List (Nat × Event) → Prop
  | delivered {ws m} (hwrites : ∀ e ∈ ws, e.2.IsWrite) (hoctets : octetsIn ws = octets) :
    Delivery octets (.ok ()) (ws ++ [(m, .wire .flushed)])
  | cut {ws e error rest} (hwrites : ∀ e ∈ ws, e.2.IsWrite) (hlost : e.2.IsLostWrite)
    (hrest : rest ≠ []) (hoctets : octets = octetsIn ws ++ rest) :
    Delivery octets (.error error) (ws ++ [e])
  | notTaken {ws m error} (hwrites : ∀ e ∈ ws, e.2.IsWrite) (hoctets : octetsIn ws = octets) :
    Delivery octets (.error error) (ws ++ [(m, .wire .flushFault)])

/-- What is done to send a reply hands no request. -/
theorem Delivery.requestsIn_eq {octets : Bytes} {result : Except SendError Unit}
    (h : Delivery octets result es) : requestsIn es = [] := by
  cases h with
  | delivered hwrites _ | notTaken hwrites _ =>
    rw [requestsIn_append, requestsIn_writes hwrites]
    rfl
  | cut hwrites hlost _ _ =>
    rw [requestsIn_append, requestsIn_writes hwrites, requestsIn_eq_nil, List.nil_append]
    intro e he
    obtain rfl := List.mem_singleton.mp he
    exact hlost.isUnseen

/-- What is done to send a reply leaves no pipeline. -/
theorem Delivery.contextsIn_eq {octets : Bytes} {result : Except SendError Unit}
    (h : Delivery octets result es) : contextsIn es = [] := by
  have hconcat {ws : List (Nat × Event)} {e : Nat × Event} (hwrites : ∀ e ∈ ws, e.2.IsWrite)
      (he : e.2.context? = none) : contextsIn (ws ++ [e]) = [] :=
    contextsIn_eq_nil <| List.forall_mem_append.mpr
      ⟨fun e he => (hwrites e he).context?_eq, List.forall_mem_singleton.mpr he⟩
  cases h with
  | delivered hwrites _ | notTaken hwrites _ => exact hconcat hwrites rfl
  | cut hwrites hlost _ _ => exact hconcat hwrites hlost.context?_eq

namespace Client

variable {c : Timed Client}

/-- Offering octets leaves accepted writes, and a lost one if not all octets are accepted. -/
theorem later_writeAll (bytes : Bytes) (hp : ∃ p, c.subject.peer? = some p) :
    ∃ es, Later c (writeAll bytes c).2 es ∧ Writes bytes (writeAll bytes c).1 es := by
  fun_induction writeAll bytes c with
  | case1 c => exact ⟨[], later_refl hp, .all (fun e he => absurd he List.not_mem_nil) rfl⟩
  | case2 c b bs e c' hw =>
    have hlater := later_write hp (b :: bs)
    rw [hw] at hlater
    exact ⟨[] ++ [_], hlater, .cut (fun e he => absurd he List.not_mem_nil) .fault
      (List.cons_ne_nil b bs) rfl⟩
  | case3 c b bs c' hw =>
    have hlater := later_write hp (b :: bs)
    rw [hw] at hlater
    exact ⟨[] ++ [_], hlater, .cut (fun e he => absurd he List.not_mem_nil) .nothing
      (List.cons_ne_nil b bs) rfl⟩
  | case4 c b bs n c' hw ih =>
    have hlater := later_write hp (b :: bs)
    rw [hw] at hlater
    obtain ⟨es, hes, hwrites⟩ := ih hlater.peer
    have hcons : Writes (b :: bs.take n ++ bs.drop n) (writeAll (bs.drop n) c').1
        ((c.timeline.now, .wire (.wrote (b :: bs.take n))) :: es) :=
      Writes.cons (List.cons_ne_nil b (bs.take n)) hwrites
    rw [List.cons_append, List.take_append_drop] at hcons
    exact ⟨_, hlater.trans hes, hcons⟩

end Client

/-- Sending leaves writes, and whether the client has taken delivery if all were accepted. -/
theorem Outbox.later_send {c : Timed Client} (box : Outbox) (hp : ∃ p, c.subject.peer? = some p)
    (hne : box.waiting ≠ []) :
    ∃ es, Client.Later c (box.send c).2.2 es ∧ Delivery box.waiting (box.send c).1 es := by
  obtain ⟨es, hlater, hwrites⟩ := Client.later_writeAll box.waiting hp
  have hwaiting : ¬ box.waiting.isEmpty = true := by
    rwa [List.isEmpty_iff]
  unfold send
  rw [if_neg hwaiting]
  generalize Client.writeAll box.waiting c = x at hlater hwrites
  obtain ⟨result, c'⟩ := x
  cases hwrites with
  | cut hw hlost hrest hoctets => exact ⟨_, hlater, .cut hw hlost hrest hoctets⟩
  | all hw hoctets =>
    have hflush := Client.later_flush hlater.peer
    dsimp only at hflush ⊢
    generalize Client.flush c' = y at hflush
    obtain ⟨result, c''⟩ := y
    cases result with
    | error e => exact ⟨_, hlater.trans hflush, .notTaken hw hoctets⟩
    | ok _ => exact ⟨_, hlater.trans hflush, .delivered hw hoctets⟩

/-- A reply has at least the lines in front of the cookies, even if it cannot be written. -/
theorem Reply.encode_ne_nil (r : Reply) : r.encode.2 ≠ [] := by
  have hfixed : r.fixedLines ≠ [] := by
    intro hnil
    have hline : r.connectionLine = [] := (List.append_eq_nil_iff.mp hnil).2
    exact absurd (List.append_eq_nil_iff.mp hline).2 (List.cons_ne_nil _ _)
  unfold encode encodeHead
  generalize cookieLines r.setCookies = x
  obtain ⟨_ | _, lines⟩ := x <;> simp [hfixed]

/-! ### Contexts -/

/-- In a stretch behind so many requests the pipelines have left a context for each request. -/
def LeavesContexts (s : Service) (remote : Option Address) (before : Nat)
    (es : List (Nat × Event)) : Prop :=
  contextsIn es = (s.executions remote before (requestsIn es)).map (·.context)

section

variable {s : Service} {remote : Option Address} {before : Nat} {es' : List (Nat × Event)}

theorem leavesContexts_of_nil (h : requestsIn es = [] ∧ contextsIn es = []) :
    LeavesContexts s remote before es := by
  rw [LeavesContexts, h.1, h.2]
  rfl

theorem LeavesContexts.append (h : LeavesContexts s remote before es)
    (h' : LeavesContexts s remote (before + (requestsIn es).length) es') :
    LeavesContexts s remote before (es ++ es') := by
  rw [LeavesContexts] at h h' ⊢
  rw [contextsIn_append, requestsIn_append, Service.executions_append, List.map_append, h, h']

end

/-! ### Handling -/

namespace Connection

variable {υ : Type} {s : Service} {c : Connection υ} {x : Execution}

/-- The pipeline is run on a request, at a moment. -/
inductive Executed (x : Execution) (start : Nat) : List (Nat × Event) → Prop
  | mk {acts m} (hacts : ∀ e ∈ acts, ∃ mark, e.2 = .mark mark) :
    Executed x start ((start, .handed x.request) :: (acts ++ [(m, .answered x.context)]))

/-- How handling a request went that was received at a moment. -/
inductive Handling (x : Execution) (start : Nat) : Outcome → List (Nat × Event) → Prop
  /-- There is nothing to send. -/
  | unanswered {run} (hrun : Executed x start run) (hreply : x.context.reply? = none) :
    Handling x start (.handled (decide x.context.StaysOpen)) run
  /-- The reply cannot be written. -/
  | unwritable {run reply error} (hrun : Executed x start run)
    (hreply : x.context.reply? = some reply) (hencode : reply.encode.1 = .error error) :
    Handling x start (.failed (.response error)) run
  | sent {run reply ws} (hrun : Executed x start run)
    (hreply : x.context.reply? = some reply) (hencode : reply.encode.1 = .ok ())
    (hws : Delivery reply.encode.2 (.ok ()) ws) :
    Handling x start (.handled (decide x.context.StaysOpen)) (run ++ ws)
  | notSent {run reply ws error} (hrun : Executed x start run)
    (hreply : x.context.reply? = some reply) (hencode : reply.encode.1 = .ok ())
    (hws : Delivery reply.encode.2 (.error error) ws) :
    Handling x start (.failed (.response error)) (run ++ ws)

namespace Executed

variable {start : Nat} {run : List (Nat × Event)}

theorem requestsIn_eq (h : Executed x start run) : requestsIn run = [x.request] := by
  cases h with
  | @mk acts m hacts =>
    have hnil : requestsIn (acts ++ [(m, .answered x.context)]) = [] := by
      refine requestsIn_eq_nil <|
        List.forall_mem_append.mpr ⟨fun e he => ?_, List.forall_mem_singleton.mpr rfl⟩
      obtain ⟨mark, he⟩ := hacts e he
      rw [he]
      rfl
    rw [← List.singleton_append, requestsIn_append, hnil]
    rfl

theorem contextsIn_eq (h : Executed x start run) : contextsIn run = [x.context] := by
  cases h with
  | @mk acts m hacts =>
    have hnil : contextsIn ((start, .handed x.request) :: acts) = [] := by
      refine contextsIn_eq_nil (List.forall_mem_cons.mpr ⟨rfl, fun e he => ?_⟩)
      obtain ⟨mark, he⟩ := hacts e he
      rw [he]
      rfl
    rw [← List.cons_append, contextsIn_append, hnil]
    rfl

end Executed

/-- Handling a request hands it and leaves its context. -/
theorem Handling.requestsIn_eq {start : Nat} {outcome : Outcome}
    (h : Handling x start outcome es) : requestsIn es = [x.request] ∧ contextsIn es = [x.context] := by
  cases h with
  | unanswered hrun _ | unwritable hrun _ _ => exact ⟨hrun.requestsIn_eq, hrun.contextsIn_eq⟩
  | sent hrun _ _ hws | notSent hrun _ _ hws =>
    rw [requestsIn_append, contextsIn_append, hrun.requestsIn_eq, hrun.contextsIn_eq,
      hws.requestsIn_eq, hws.contextsIn_eq]
    exact ⟨rfl, rfl⟩

/-- Running the pipeline leaves the request, what its handling reports and the context. -/
theorem later_ran (x : Execution) (hp : ∃ p, c.client.subject.peer? = some p) :
    ∃ es, Executed x c.timeline.now es ∧ Client.Later c.client (c.ran x).client es := by
  have hhanded := Timeline.later_record c.timeline (.handed x.request)
  obtain ⟨acts, hperform, hacts⟩ :=
    Timeline.later_foldl_perform (c.timeline.record (.handed x.request)) x.acts
  have hanswered := Timeline.later_record
    (x.acts.foldl Timeline.perform (c.timeline.record (.handed x.request))) (.answered x.context)
  exact ⟨_, .mk hacts, hp, rfl, hhanded.trans (hperform.trans hanswered)⟩

/-- **Handling a request leaves the log of handling it.** -/
theorem later_handle {p : Pipeline} {q : Request}
    (hx : x = p.executionOf c.client.subject.remote q)
    (hp : ∃ p, c.client.subject.peer? = some p) :
    ∃ es, Client.Later c.client (c.handle p q).2.client es ∧
      Handling x c.timeline.now (c.handle p q).1 es := by
  obtain ⟨run, hrun, hlater⟩ := later_ran x hp
  cases hreply : x.context.reply? with
  | none =>
    rw [handle_of_noReply hx hreply]
    exact ⟨run, hlater, .unanswered hrun hreply⟩
  | some reply =>
    rw [handle_of_reply hx hreply]
    cases hencode : reply.encode.1 with
    | error e =>
      have hput : (c.ran x).outbox.clear.put reply = (.error e, ⟨reply.encode.2⟩) :=
        Prod.ext hencode rfl
      rw [hput]
      exact ⟨run, hlater, .unwritable hrun hreply hencode⟩
    | ok _ =>
      have hput : (c.ran x).outbox.clear.put reply = (.ok (), ⟨reply.encode.2⟩) :=
        Prod.ext hencode rfl
      obtain ⟨ws, hsend, hws⟩ := Outbox.later_send ⟨reply.encode.2⟩ hlater.peer
        reply.encode_ne_nil
      rw [hput]
      dsimp only
      generalize Outbox.send ⟨reply.encode.2⟩ (c.ran x).client = sent at hsend hws
      obtain ⟨result, box, client⟩ := sent
      cases result with
      | error e => exact ⟨run ++ ws, hlater.trans hsend, .notSent hrun hreply hencode hws⟩
      | ok _ => exact ⟨run ++ ws, hlater.trans hsend, .sent hrun hreply hencode hws⟩

theorem handled_handle (p : Pipeline) (q : Request) (c : Connection υ) :
    (c.handle p q).2.handled = c.handled + 1 := by
  cases hreply : (p.executionOf c.client.subject.remote q).context.reply? with
  | none =>
    rw [handle_of_noReply rfl hreply]
    rfl
  | some reply =>
    rw [handle_of_reply rfl hreply]
    split
    · rfl
    · split <;> rfl

/-! ### Receiving -/

/-- What receiving a request leaves, by what it came to. -/
inductive Receiving : Except (Stop ReceiveError) Received → List (Nat × Event) → Prop
  | reads {received es} (hreads : ∀ e ∈ es, e.2.IsRead)
    (hio : ∀ io, received ≠ .error (.fault (.io io))) : Receiving received es
  /-- The last read failed. -/
  | readFault {es m io} (hreads : ∀ e ∈ es, e.2.IsRead) :
    Receiving (.error (.fault (.io io))) (es ++ [(m, .wire .readFault)])

theorem nil_of_reads {es : List (Nat × Event)} (h : ∀ e ∈ es, e.2.IsRead) :
    requestsIn es = [] ∧ contextsIn es = [] :=
  ⟨requestsIn_eq_nil fun e he => (h e he).isUnseen,
    contextsIn_eq_nil fun e he => (h e he).context?_eq⟩

theorem nil_of_notices {es : List (Nat × Event)} (h : ∀ e ∈ es, ∃ n, e.2 = .notice n) :
    requestsIn es = [] ∧ contextsIn es = [] := by
  refine ⟨requestsIn_eq_nil fun e he => ?_, contextsIn_eq_nil fun e he => ?_⟩ <;>
  · obtain ⟨n, he⟩ := h e he
    rw [he]
    rfl

/-- Receiving a request does not hand it yet. -/
theorem Receiving.nil {received : Except (Stop ReceiveError) Received} {es : List (Nat × Event)}
    (h : Receiving received es) : requestsIn es = [] ∧ contextsIn es = [] := by
  cases h with
  | reads hreads _ => exact nil_of_reads hreads
  | readFault hreads =>
    obtain ⟨hrequests, hcontexts⟩ := nil_of_reads hreads
    rw [requestsIn_append, contextsIn_append, hrequests, hcontexts]
    exact ⟨rfl, rfl⟩

/-- Reads of a client leave reads, and a failed one where they stop with an error. -/
theorem readLeads_client (c₀ : Timed Client) (limit : Nat) (client : Timed Client)
    (h : ∃ es, (∀ e ∈ es, e.2.IsRead) ∧ Client.Later c₀ client es) :
    ReadLeads (fun client => ∃ es, (∀ e ∈ es, e.2.IsRead) ∧ Client.Later c₀ client es)
      (fun e client => ∃ es, Receiving (.error (e.map .io)) es ∧ Client.Later c₀ client es)
      (ByteSource.read limit client) := by
  obtain ⟨es, hreads, hlater⟩ := h
  have hread := hlater.trans (Client.later_read hlater.peer limit)
  change ReadLeads _ _ (Client.read limit client)
  generalize Client.read limit client = x at hread
  obtain ⟨answer, client'⟩ := x
  cases answer with
  | ok bytes =>
    refine ⟨_, fun e he => ?_, hread⟩
    rcases List.mem_append.mp he with he | he
    · exact hreads e he
    · obtain rfl := List.mem_singleton.mp he
      exact ⟨_, rfl⟩
  | error stop =>
    cases stop with
    | fault io => exact ⟨_, .readFault hreads, hread⟩
    | interrupted cause =>
      rw [Peer.readLog, List.append_nil] at hread
      exact ⟨es, .reads hreads nofun, hread⟩

variable [VersionResolver υ]

/-- **Receiving a request leaves reads, of which only the last one may have failed.** -/
theorem later_receiveRequest (s : Service) (hp : ∃ p, c.client.subject.peer? = some p) :
    ∃ es, Receiving (c.receiveRequest s).1 es ∧
      Client.Later c.client (c.receiveRequest s).2.client es := by
  have hnone : ∃ es, (∀ e ∈ es, e.2.IsRead) ∧ Client.Later c.client c.reader.source es :=
    ⟨[], fun e he => absurd he List.not_mem_nil, Client.later_refl hp⟩
  have hstop := BufferedReader.stoppable fun n s _ => readLeads_client c.client n s
  have hleads := hstop.receive s.settings.allowTrailers c.versions hnone
  unfold receiveRequest
  generalize HttpWire.receive s.settings.allowTrailers c.versions c.reader = x at hleads
  -- Lifting the limits behind it leaves nothing.
  have hunder {client : Timed Client} {es : List (Nat × Event)}
      (h : Client.Later c.client client es) :
      Client.Later c.client ⟨client.subject, client.timeline.under {}⟩ es :=
    ⟨h.peer, h.remote, h.timeline.trans_nil (Timeline.later_under ..)⟩
  cases hleads with
  | ok h =>
    obtain ⟨es, hreads, hlater⟩ := h
    exact ⟨es, .reads hreads nofun, hunder hlater⟩
  | refused he h =>
    obtain ⟨es, hreads, hlater⟩ := h
    refine ⟨es, .reads hreads fun io hio => ?_, hunder hlater⟩
    cases hio
    exact he io rfl
  | stopped h =>
    obtain ⟨es, hreceiving, hlater⟩ := h
    exact ⟨es, hreceiving, hunder hlater⟩

/-! ### Exchanging -/

/-- What an exchange that has been begun leaves, by what it came to. -/
inductive Exchanged (s : Service) (c : Connection υ) : Outcome → List (Nat × Event) → Prop
  /-- The wait for a request was cancelled before it began. -/
  | notBegun (h : c.isCancelledFirst = true) : Exchanged s c .cancelled []
  | handled {q x outcome es es'} (h : c.isCancelledFirst = false)
    (hr : (c.receiveRequest s).1 = .ok (.request q)) (hreads : ∀ e ∈ es, e.2.IsRead)
    (hx : x = (s.pipeline c.handled).executionOf c.client.subject.remote q)
    (hhandling : Handling x (c.receiveRequest s).2.timeline.now outcome es') :
    Exchanged s c outcome (es ++ es')
  /-- There was no request, which may be reported. -/
  | nothing {why es es'} (h : c.isCancelledFirst = false)
    (hr : (c.receiveRequest s).1 = .ok (.nothing why)) (hreads : ∀ e ∈ es, e.2.IsRead)
    (hreport : ∀ e ∈ es', ∃ n, why.notice? = some n ∧ e.2 = .notice n) :
    Exchanged s c .noRequest (es ++ es')
  | stopped {e es} (h : c.isCancelledFirst = false) (hr : (c.receiveRequest s).1 = .error e)
    (hreceiving : Receiving (.error e) es) : Exchanged s c (.ofStop e) es

/-- An exchange leaves the contexts of what it hands. -/
theorem Exchanged.leavesContexts {outcome : Outcome} {es : List (Nat × Event)}
    (h : Exchanged s c outcome es) :
    LeavesContexts s c.client.subject.remote c.handled es := by
  cases h with
  | notBegun _ => exact leavesContexts_of_nil ⟨rfl, rfl⟩
  | handled _ _ hreads hx hhandling =>
    obtain ⟨hrequests, hcontexts⟩ := hhandling.requestsIn_eq
    obtain ⟨hrequests', hcontexts'⟩ := nil_of_reads hreads
    rw [LeavesContexts, requestsIn_append, contextsIn_append, hrequests', hcontexts', hrequests,
      hcontexts, hx]
    rfl
  | nothing _ _ hreads hreport =>
    have hnotices := nil_of_notices fun e he => (hreport e he).imp fun _ h => h.2
    exact (leavesContexts_of_nil (nil_of_reads hreads)).append (leavesContexts_of_nil hnotices)
  | stopped _ _ hreceiving => exact leavesContexts_of_nil hreceiving.nil

/-- **An exchange leaves the log of receiving**, and behind it that of handling what it received. -/
theorem later_exchange (idleTimeout : Option Nat) (hp : ∃ p, c.client.subject.peer? = some p) :
    ∃ es, Client.Later c.client (c.exchange s idleTimeout).2.client es ∧
      Exchanged s (c.beginExchange s idleTimeout) (c.exchange s idleTimeout).1 es ∧
        (c.exchange s idleTimeout).2.handled = c.handled + (requestsIn es).length := by
  have hbegin : Client.Later c.client (c.beginExchange s idleTimeout).client [] :=
    ⟨hp, rfl, Timeline.later_under ..⟩
  obtain ⟨es, hreceiving, hlater⟩ := later_receiveRequest s hbegin.peer
  have hreceived := hbegin.nil_trans hlater
  have hcount : ((c.beginExchange s idleTimeout).receiveRequest s).2.handled = c.handled := rfl
  obtain ⟨hnone, -⟩ := hreceiving.nil
  have hstep := comesTo_exchange s idleTimeout c
  generalize c.exchange s idleTimeout = x at hstep
  cases hstep with
  | cancelled h =>
    have hunder : Client.Later c.client
        ((c.beginExchange s idleTimeout).onTimeline (·.under {})).client [] :=
      ⟨hp, rfl, Timeline.later_under ..⟩
    exact ⟨[], hunder, .notBegun h, rfl⟩
  | @request q c₁ h hr =>
    rw [hr] at hreceiving hreceived hcount
    cases hreceiving with
    | reads hreads _ =>
      have hx : (s.pipeline c.handled).executionOf c.client.subject.remote q =
          (s.pipeline c₁.handled).executionOf c₁.client.subject.remote q := by
        rw [← hcount, ← hreceived.remote]
      obtain ⟨es', hhandle, hhandling⟩ := later_handle hx hreceived.peer
      refine ⟨_, hreceived.trans hhandle, .handled h (congrArg Prod.fst hr) hreads rfl ?_, ?_⟩
      · rw [hr]
        exact hhandling
      · rw [handled_handle, requestsIn_append, hnone, hhandling.requestsIn_eq.1]
        exact congrArg (· + 1) hcount
  | @nothing why c₁ h hr =>
    rw [hr] at hreceiving hreceived hcount
    cases hreceiving with
    | reads hreads _ =>
      obtain ⟨es', hnotify, hreport⟩ : ∃ es',
          Client.Later c₁.client (why.notice?.elim c₁ c₁.notify).client es' ∧
            ∀ e ∈ es', ∃ n, why.notice? = some n ∧ e.2 = .notice n := by
        cases hnotice : why.notice? with
        | none =>
          exact ⟨[], Client.later_refl hreceived.peer, fun e he => absurd he List.not_mem_nil⟩
        | some n =>
          refine ⟨[(c₁.timeline.now, .notice n)],
            ⟨hreceived.peer, rfl, Timeline.later_record ..⟩, fun e he => ⟨n, rfl, ?_⟩⟩
          obtain rfl := List.mem_singleton.mp he
          rfl
      obtain ⟨hnone', -⟩ := nil_of_notices fun e he => (hreport e he).imp fun _ h => h.2
      refine ⟨_, hreceived.trans hnotify, .nothing h (congrArg Prod.fst hr) hreads hreport, ?_⟩
      rw [requestsIn_append, hnone, hnone']
      cases why.notice? <;> exact hcount
  | @stopped e c₁ h hr =>
    rw [hr] at hreceiving hreceived hcount
    refine ⟨es, hreceived, .stopped h (congrArg Prod.fst hr) hreceiving, ?_⟩
    rw [hnone]
    exact hcount

/-- Whatever an exchange comes to, it leaves the client later on. -/
theorem exists_later_exchange {idleTimeout : Option Nat} {outcome : Outcome} {c' : Connection υ}
    (hp : ∃ p, c.client.subject.peer? = some p) (hx : c.exchange s idleTimeout = (outcome, c')) :
    ∃ es, Client.Later c.client c'.client es := by
  obtain ⟨es, hlater, -⟩ := later_exchange (s := s) idleTimeout hp
  rw [hx] at hlater
  exact ⟨es, hlater⟩

end Connection

end HttpWire
