import HttpWire.Proofs.Connection.Log
import HttpWire.Proofs.Reading.Emptied
import HttpWire.Proofs.Wire.Responsive

/-!
# What an exchange gets on with

An exchange takes octets, or finds that there are none any more, or fails, or is given up
(`gets_on`).  With a responsive client, it is given up only for a time limit
(`responsive_exchange`).

So an exchange that finds nothing pending, and is not cut short, meets the end by the one read that
it makes (`exchange_of_pending`); behind the end it does not read (`exchange_of_drained`).
-/

namespace HttpWire

/-- The pipeline never cancels the work of the server. -/
def Pipeline.NeverCancels (p : Pipeline) : Prop :=
  ∀ q remote, .cancel ∉ (p.execute (.ofRequest q remote)).2

namespace Connection

variable {υ : Type} {s : Service} {c c' : Connection υ} {idleTimeout : Option Nat}

/-! ### Counting exchanges -/

theorem exchanges_handle (p : Pipeline) (q : Request) (c : Connection υ) :
    (c.handle p q).2.exchanges = c.exchanges := by
  unfold handle send
  dsimp only
  split
  · rfl
  · split
    · rfl
    · split <;> rfl

/-- Handling a request is done, or fails. -/
theorem outcome_handle (p : Pipeline) (q : Request) (c : Connection υ) :
    (∃ keepAlive, (c.handle p q).1 = .handled keepAlive) ∨ ∃ e, (c.handle p q).1 = .failed e := by
  unfold handle send
  dsimp only
  split
  · exact .inl ⟨_, rfl⟩
  · split
    · exact .inr ⟨_, rfl⟩
    · split
      · exact .inr ⟨_, rfl⟩
      · exact .inl ⟨_, rfl⟩

/-- An exchange is begun if nothing is cancelled. -/
theorem isCancelledFirst_beginExchange (s : Service) (idleTimeout : Option Nat)
    (h : c.timeline.cancelAt = none) :
    (c.beginExchange s idleTimeout).isCancelledFirst = false := by
  have hnone : (c.beginExchange s idleTimeout).timeline.isCancelled = false := by
    rw [Timeline.isCancelled, show (c.beginExchange s idleTimeout).timeline.cancelAt = none from h]
  rw [isCancelledFirst, hnone, Bool.and_false]

variable [VersionResolver υ]

/-- An exchange is counted once. -/
theorem exchanges_exchange (s : Service) (idleTimeout : Option Nat) (c : Connection υ) :
    (c.exchange s idleTimeout).2.exchanges = c.exchanges + 1 := by
  have hstep := comesTo_exchange s idleTimeout c
  have hreceive {b c' : Connection υ} {answer} (hr : b.receiveRequest s = (answer, c')) :
      c'.exchanges = b.exchanges := by
    obtain rfl : (b.receiveRequest s).2 = c' := congrArg Prod.snd hr
    rfl
  generalize c.exchange s idleTimeout = x at hstep
  cases hstep with
  | cancelled _ => rfl
  | request _ hr => exact (exchanges_handle ..).trans (hreceive hr)
  | @nothing why c' _ hr =>
    rw [show c.exchanges + 1 = c'.exchanges from (hreceive hr).symm]
    cases why.notice? <;> rfl
  | stopped _ hr => exact hreceive hr

/-! ### Getting on -/

/-- The connection with its reader elsewhere, and no limits. -/
def behind (c : Connection υ) (reader : BufferedReader (Timed Client)) : Connection υ :=
  { c with reader }.onTimeline (·.under {})

/-- A request that is received is handled. -/
theorem exchange_of_received {q : Request} {versions : υ} {r : BufferedReader (Timed Client)}
    (hcancel : c.timeline.cancelAt = none)
    (h : receive s.settings.allowTrailers c.versions (c.beginExchange s idleTimeout).reader =
      (.ok (.request q), versions, r)) :
    c.exchange s idleTimeout =
      ({ c.beginExchange s idleTimeout with versions }.behind r).handle (s.pipeline c.handled) q := by
  have hbegun := isCancelledFirst_beginExchange s idleTimeout hcancel
  have hreceive : (c.beginExchange s idleTimeout).receiveRequest s =
      (.ok (.request q), { c.beginExchange s idleTimeout with versions }.behind r) := by
    rw [receiveRequest, show (c.beginExchange s idleTimeout).versions = c.versions from rfl, h]
    rfl
  rw [exchange]
  simp only [hbegun, Bool.false_eq_true, if_false, hreceive]
  rfl

/-- An exchange is stopped where receiving is. -/
theorem exchange_of_stopped {e : Stop ReceiveError} {versions : υ}
    {r : BufferedReader (Timed Client)} (hcancel : c.timeline.cancelAt = none)
    (h : receive s.settings.allowTrailers c.versions (c.beginExchange s idleTimeout).reader =
      (.error e, versions, r)) :
    c.exchange s idleTimeout =
      (.ofStop e, { c.beginExchange s idleTimeout with versions }.behind r) := by
  have hbegun := isCancelledFirst_beginExchange s idleTimeout hcancel
  have hreceive : (c.beginExchange s idleTimeout).receiveRequest s =
      (.error e, { c.beginExchange s idleTimeout with versions }.behind r) := by
    rw [receiveRequest, show (c.beginExchange s idleTimeout).versions = c.versions from rfl, h]
    rfl
  rw [exchange]
  simp only [hbegun, Bool.false_eq_true, if_false, hreceive]
  rcases e with e | _ | _ | _ <;> rfl

/-- With nothing pending, looking for a request meets the end or is stopped. -/
theorem receiveRequest_of_pending (s : Service) (h : c.reader.pending = []) :
    (∃ r, { c.reader with lastTaken := 0 }.fill = (.ok false, r) ∧ r.atEnd = true ∧ r.buffer = [] ∧
      c.receiveRequest s = (.ok (.nothing .endOfInput), c.behind r)) ∨
    ∃ e r, { c.reader with lastTaken := 0 }.fill = (.error e, r) ∧
      c.receiveRequest s = (.error e, c.behind r) := by
  unfold receiveRequest
  rcases BufferedReader.receive_of_pending s.settings.allowTrailers c.versions h with
    ⟨r, hfill, hend, hbuffer, hr⟩ | ⟨e, r, hfill, hr⟩
  · rw [hr]
    exact .inl ⟨r, hfill, hend, hbuffer, rfl⟩
  · rw [hr]
    exact .inr ⟨e, r, hfill, rfl⟩

/-- What an exchange has got on with, by what it has come to. -/
inductive GetsOn (c c' : Connection υ) : Outcome → Prop
  /-- Octets were taken. -/
  | takes {outcome} (h : c'.reader.pending.length < c.reader.pending.length) : GetsOn c c' outcome
  /-- There was nothing to take, and the end has been met. -/
  | ends (hbefore : c.reader.pending = []) (hbuffer : c'.reader.buffer = [])
    (hend : c'.reader.atEnd = true) : GetsOn c c' .noRequest
  | fails (e : ServeError) : GetsOn c c' (.failed e)
  /-- The wait for a request was given up. -/
  | givesUp (cause : Interruption) : GetsOn c c' (.ofStop (.interrupted cause))

/-- An exchange takes octets, or finds that there are none any more, or fails, or is given up. -/
theorem gets_on (s : Service) (idleTimeout : Option Nat) (c : Connection υ) :
    GetsOn c (c.exchange s idleTimeout).2 (c.exchange s idleTimeout).1 := by
  have hstep := comesTo_exchange s idleTimeout c
  generalize c.exchange s idleTimeout = x at hstep
  cases hstep with
  | cancelled _ => exact .givesUp .cancelled
  | @request q c' _ hr =>
    obtain ⟨versions, hflat⟩ := receive_flatten_of_receiveRequest hr
    apply GetsOn.takes
    show (c'.handle (s.pipeline c'.handled) q).2.reader.flatten.rest.length < _
    rw [flatten_handle]
    exact remaining_receive_lt hflat
  | @nothing why c' _ hr =>
    have hsame : (why.notice?.elim c' c'.notify).reader.pending = c'.reader.pending ∧
        (why.notice?.elim c' c'.notify).reader.buffer = c'.reader.buffer ∧
        (why.notice?.elim c' c'.notify).reader.atEnd = c'.reader.atEnd := by
      cases why.notice? <;> exact ⟨rfl, rfl, rfl⟩
    by_cases hpending : c.reader.pending = []
    · rcases receiveRequest_of_pending (c := c.beginExchange s idleTimeout) s hpending with
        ⟨r, -, hend, hbuffer, hr'⟩ | ⟨e, r, -, hr'⟩
      · rw [hr] at hr'
        cases hr'
        exact .ends hpending hbuffer hend
      · rw [hr] at hr'
        cases hr'
    · obtain ⟨versions, hflat⟩ := receive_flatten_of_receiveRequest hr
      apply GetsOn.takes
      have hlt := FlatReader.length_rest_receive s.settings.allowTrailers
        (c.beginExchange s idleTimeout).versions
        (f := (c.beginExchange s idleTimeout).reader.flatten) hpending
      rw [hflat] at hlt
      rw [hsame.1]
      exact hlt
  | @stopped e c' _ hr =>
    cases e with
    | fault e => exact .fails (.request e)
    | interrupted cause => exact .givesUp cause

/-! ### Responsive clients -/

/-- Receiving from a responsive client leaves it responsive, and only a deadline cuts it short. -/
theorem responsive_receiveRequest (s : Service) (h : Client.IsResponsive c.client) :
    Client.IsResponsive (c.receiveRequest s).2.client ∧
      ∀ {cause}, (c.receiveRequest s).1 = .error (.interrupted cause) →
        cause = .timedOut ∧ c.timeline.limits.deadline ≠ none := by
  have hread (limit : Nat) (client : Timed Client)
      (hclient : Client.IsResponsive client ∧ client.timeline.limits = c.timeline.limits) :
      ReadLeads
        (fun client => Client.IsResponsive client ∧ client.timeline.limits = c.timeline.limits)
        (fun e client => Client.IsResponsive client ∧
          ∀ {cause}, e = .interrupted cause → cause = .timedOut ∧
            c.timeline.limits.deadline ≠ none)
        (ByteSource.read limit client) := by
    obtain ⟨hclient, hsame⟩ := hclient
    obtain ⟨hbehind, htimed⟩ := hclient.read limit
    have hlimits := Client.limits_read limit hclient.exists_peer
    change ReadLeads _ _ (Client.read limit client)
    generalize Client.read limit client = x at hbehind htimed hlimits
    obtain ⟨answer, client'⟩ := x
    cases answer with
    | ok bytes => exact ⟨hbehind, hlimits.trans hsame⟩
    | error e =>
      refine ⟨hbehind, fun he => ?_⟩
      rw [← hsame]
      exact htimed (congrArg Except.error he)
  have hstop := BufferedReader.stoppable fun n s _ => hread n s
  have hleads := hstop.receive s.settings.allowTrailers c.versions (r := c.reader) ⟨h, rfl⟩
  unfold receiveRequest
  generalize HttpWire.receive s.settings.allowTrailers c.versions c.reader = x at hleads
  cases hleads with
  | ok h' => exact ⟨h'.1.at rfl rfl, fun he => by cases he⟩
  | refused _ h' => exact ⟨h'.1.at rfl rfl, fun he => by cases he⟩
  | @stopped e _ h' =>
    refine ⟨h'.1.at rfl rfl, fun he => ?_⟩
    cases e with
    | fault io => cases he
    | interrupted cause =>
      cases he
      exact h'.2 rfl

omit [VersionResolver υ] in
theorem responsive_handle {p : Pipeline} (hquiet : p.NeverCancels) (q : Request)
    (h : Client.IsResponsive c.client) : Client.IsResponsive (c.handle p q).2.client := by
  generalize hx : p.executionOf c.client.subject.remote q = x
  have hran : Client.IsResponsive (c.ran x).client := by
    obtain ⟨es, -, hlater⟩ := later_ran x h.exists_peer
    have hacts : .cancel ∉ x.acts := hx ▸ hquiet q _
    refine h.at ?_ hlater.timeline.horizon
    show (Timeline.record _ _).cancelAt = c.timeline.cancelAt
    rw [Timeline.cancelAt_record, Timeline.cancelAt_foldl_perform hacts, Timeline.cancelAt_record]
    rfl
  cases hreply : x.context.reply? with
  | none =>
    rw [handle_of_noReply hx.symm hreply]
    exact hran
  | some reply =>
    rw [handle_of_reply hx.symm hreply]
    split
    · exact hran
    · next outbox _ =>
      have hsend := hran.send outbox
      split <;> next hs =>
        rw [hs] at hsend
        exact hsend

/-- **An exchange with a responsive client leaves it responsive**, and is given up only for a time
limit. -/
theorem responsive_exchange (hquiet : ∀ n, (s.pipeline n).NeverCancels)
    (h : Client.IsResponsive c.client) (idleTimeout : Option Nat) :
    Client.IsResponsive (c.exchange s idleTimeout).2.client ∧
      ∀ {cause}, (c.exchange s idleTimeout).1 = .ofStop (.interrupted cause) →
        cause = .timedOut ∧ idleTimeout ≠ none := by
  have hbegin : Client.IsResponsive (c.beginExchange s idleTimeout).client := h.at rfl rfl
  obtain ⟨hreceive, htimed⟩ := responsive_receiveRequest s hbegin
  have hstep := comesTo_exchange s idleTimeout c
  generalize c.exchange s idleTimeout = x at hstep
  cases hstep with
  | cancelled hc =>
    rw [isCancelledFirst_beginExchange s idleTimeout h.cancelAt] at hc
    cases hc
  | @request q c' _ hr =>
    rw [hr] at hreceive
    refine ⟨responsive_handle (hquiet _) q hreceive, fun {cause} he => ?_⟩
    rcases outcome_handle (s.pipeline c'.handled) q c' with ⟨keepAlive, h⟩ | ⟨e, h⟩
    · rw [h] at he
      cases cause <;> cases he
    · rw [h] at he
      cases cause <;> cases he
  | @nothing why c' _ hr =>
    rw [hr] at hreceive
    refine ⟨?_, fun {cause} he => by cases cause <;> cases he⟩
    cases why.notice? with
    | none => exact hreceive
    | some n =>
      have hlater := Timeline.later_record c'.timeline (.notice n)
      exact hreceive.at (Timeline.cancelAt_record ..) hlater.horizon
  | @stopped e c' _ hr =>
    rw [hr] at hreceive htimed
    refine ⟨hreceive, fun {cause} he => ?_⟩
    have hcause : e = .interrupted cause := by
      rcases e with e | _ | _ | _ <;> cases cause <;> cases he <;> rfl
    obtain ⟨hc, hd⟩ := htimed (congrArg Except.error hcause)
    refine ⟨hc, fun hidle => hd ?_⟩
    rw [hidle]
    rfl

/-! ### At the end -/

/-- An exchange that finds no request with nothing pending has met the end, by one read if it was
not met before. -/
theorem exchange_of_pending (h : Client.IsResponsive c.client) (hpending : c.reader.pending = [])
    (hx : c.exchange s idleTimeout = (.noRequest, c')) :
    c'.reader.buffer = [] ∧ c'.reader.atEnd = true ∧
      c'.timeline.events = c.timeline.events ++
        if c.reader.atEnd then [] else [(c'.timeline.now, .wire (.read 0))] := by
  have hbegin : Client.IsResponsive (c.beginExchange s idleTimeout).client := h.at rfl rfl
  have hstep := comesTo_exchange s idleTimeout c
  rw [hx] at hstep
  generalize heq : (Outcome.noRequest, c') = x at hstep
  cases hstep with
  | cancelled _ => cases heq
  | @request q c₁ _ hr =>
    rcases outcome_handle (s.pipeline c₁.handled) q c₁ with ⟨keepAlive, hout⟩ | ⟨e, hout⟩
    · rw [← heq] at hout
      cases hout
    · rw [← heq] at hout
      cases hout
  | @stopped e c₁ _ hr => rcases e with e | _ | _ | _ <;> cases heq
  | @nothing why c₁ _ hr =>
    rcases receiveRequest_of_pending (c := c.beginExchange s idleTimeout) s hpending with
      ⟨r, hfill, hend, hbuffer, hr'⟩ | ⟨e, r, -, hr'⟩
    · rw [hr] at hr'
      cases hr'
      cases heq
      refine ⟨hbuffer, hend, ?_⟩
      unfold BufferedReader.fill at hfill
      split at hfill
      · next hmet =>
        -- The source is not read again.
        rw [if_pos (show c.reader.atEnd = true from hmet), List.append_nil]
        cases hfill
        rfl
      · next hmet =>
        rw [if_neg (show ¬ c.reader.atEnd = true from hmet)]
        have hlater := Client.later_read hbegin.exists_peer c.reader.capacity
        have hover := (hbegin.read c.reader.capacity).1.isOver
        have hsource : Client.read c.reader.capacity (c.beginExchange s idleTimeout).client =
            (.ok [], r.source) := by
          split at hfill
          · cases hfill
          · next hread =>
            cases hfill
            exact hread
          · cases hfill
        rw [hsource] at hlater hover
        exact hlater.timeline.events hover
    · rw [hr] at hr'
      cases hr'

/-- Behind the end, an exchange finds no request, at once and without a read. -/
theorem exchange_of_drained (s : Service) (idleTimeout : Option Nat)
    (hbuffer : c.reader.buffer = []) (hend : c.reader.atEnd = true)
    (hcancel : c.timeline.cancelAt = none) :
    ∃ c', c.exchange s idleTimeout = (.noRequest, c') ∧ c'.reader.buffer = [] ∧
      c'.reader.atEnd = true ∧ c'.client = ⟨c.client.subject, c.timeline.under {}⟩ := by
  have hbegun := isCancelledFirst_beginExchange s idleTimeout hcancel
  have hreceive : (c.beginExchange s idleTimeout).receiveRequest s =
      (.ok (.nothing .endOfInput), (c.beginExchange s idleTimeout).behind
        { (c.beginExchange s idleTimeout).reader with lastTaken := 0 }) := by
    have hr := BufferedReader.receive_of_atEnd s.settings.allowTrailers c.versions
      (r := (c.beginExchange s idleTimeout).reader) hbuffer hend
    unfold receiveRequest
    rw [show (c.beginExchange s idleTimeout).versions = c.versions from rfl, hr]
    rfl
  refine ⟨(c.beginExchange s idleTimeout).behind
    { (c.beginExchange s idleTimeout).reader with lastTaken := 0 }, ?_, hbuffer, hend, rfl⟩
  rw [exchange]
  simp only [hbegun, Bool.false_eq_true, if_false, hreceive]
  rfl

end Connection

end HttpWire
