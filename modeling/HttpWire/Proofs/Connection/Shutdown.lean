import HttpWire.Proofs.Connection.Closing

/-!
# Shutting down

When work is cancelled, a connection finishes what it has received and waits for nothing more.

`waited` is where the wait for a request ends in an exchange.  `Graceful` puts together what the
exchange promises: a request that has been received is handled in full (`Handled`), the wait does
not go on behind cancellation, and if it is cut short, the client is closed at once, behind the
reads.  Every exchange that the loop comes to keeps this (`graceful_of_closed`), and the pipeline is
handed nothing but what they receive, when the wait for it ends (`handedBy_serve`).
-/

namespace HttpWire.Connection

open Event

variable {υ : Type} {s : Service} {stage stage' : Stage} {c c' : Connection υ}
  {x : Execution} {q : Request} {es es' : List (Nat × Event)} {start m : Nat}

/-! ### Handling in full -/

/-- A stretch in which a request is run through the pipeline, and the reply that the pipeline leaves,
if it leaves one, is written and flushed in full.  The only obstacles to that are a reply that
cannot be written, and a write or a flush that the client does not accept. -/
structure Handled (x : Execution) (start : Nat) (es : List (Nat × Event)) : Prop where
  handed : es.head? = some (start, .handed x.request)
  requests : requestsIn es = [x.request]
  contexts : contextsIn es = [x.context]
  sent : ∀ {reply}, x.context.reply? = some reply → reply.encode.1 = .ok () →
    (∀ e ∈ es, ¬ e.2.IsLostWrite ∧ e.2 ≠ .wire .flushFault) →
      octetsIn es = reply.encode.2 ∧ ∃ m, es.getLast? = some (m, .wire .flushed)

namespace Executed

variable {run ws : List (Nat × Event)}

/-- The request is handed once, at the beginning. -/
theorem eq_of_handed (h : Executed x start run) (hmem : (m, .handed q) ∈ run) :
    m = start ∧ q = x.request := by
  obtain ⟨reports, rfl, hreports⟩ := h.exists_reports
  rcases List.mem_cons.mp hmem with heq | hmem
  · cases heq
    exact ⟨rfl, rfl⟩
  · exact absurd (.handed q) (hreports _ hmem).not_isWork

/-- Running the pipeline on a request handles it, together with what is done to send the reply. -/
theorem handled (h : Executed x start run) (hrequests : requestsIn ws = [])
    (hcontexts : contextsIn ws = [])
    (hsent : ∀ {reply}, x.context.reply? = some reply → reply.encode.1 = .ok () →
      (∀ e ∈ ws, ¬ e.2.IsLostWrite ∧ e.2 ≠ .wire .flushFault) →
        octetsIn ws = reply.encode.2 ∧ ∃ m, ws.getLast? = some (m, .wire .flushed)) :
    Handled x start (run ++ ws) := by
  constructor
  case handed =>
    obtain ⟨reports, rfl, -⟩ := h.exists_reports
    rfl
  case requests => rw [requestsIn_append, h.requestsIn_eq, hrequests, List.append_nil]
  case contexts => rw [contextsIn_append, h.contextsIn_eq, hcontexts, List.append_nil]
  case sent =>
    intro reply hreply hencode hfine
    obtain ⟨hall, m, hlast⟩ :=
      hsent hreply hencode fun e he => hfine e (List.mem_append_right _ he)
    refine ⟨?_, m, ?_⟩
    · rw [octetsIn_append, h.octetsIn_eq, List.nil_append, hall]
    · rw [List.getLast?_append, hlast, Option.some_or]

end Executed

namespace Handling

variable {outcome : Outcome}

/-- The request that is handled is handed, at the moment at which its handling begins. -/
theorem eq_of_handed (h : Handling x start outcome es) (hmem : (m, .handed q) ∈ es) :
    m = start ∧ q = x.request := by
  cases h with
  | unanswered hrun _ | unwritable hrun _ _ => exact hrun.eq_of_handed hmem
  | sent hrun _ _ hws | notSent hrun _ _ hws =>
    rcases List.mem_append.mp hmem with hmem | hmem
    · exact hrun.eq_of_handed hmem
    · have hq := mem_requestsIn_of_handed hmem
      rw [hws.requestsIn_eq] at hq
      cases hq

/-- **Handling a request handles it in full.** -/
theorem handled (h : Handling x start outcome es) : Handled x start es := by
  cases h with
  | unanswered hrun hreply =>
    rw [← List.append_nil es]
    refine hrun.handled rfl rfl fun h => ?_
    rw [hreply] at h
    cases h
  | unwritable hrun hreply hencode =>
    rw [← List.append_nil es]
    refine hrun.handled rfl rfl fun h hok => ?_
    rw [hreply] at h
    obtain rfl := Option.some.inj h
    rw [hencode] at hok
    cases hok
  | sent hrun hreply hencode hws =>
    refine hrun.handled hws.requestsIn_eq hws.contextsIn_eq fun h _ _ => ?_
    rw [hreply] at h
    obtain rfl := Option.some.inj h
    cases hws with
    | @delivered ws m hwrites hoctets =>
      have hflushed : octetsIn [(m, .wire .flushed)] = [] := rfl
      refine ⟨?_, m, List.getLast?_concat⟩
      rw [octetsIn_append, hoctets, hflushed, List.append_nil]
  | notSent hrun hreply hencode hws =>
    refine hrun.handled hws.requestsIn_eq hws.contextsIn_eq fun _ _ hfine => ?_
    -- What is lost or not flushed stands in the way.
    cases hws with
    | cut _ hlost _ _ =>
      exact absurd hlost (hfine _ (List.mem_append_right _ List.mem_cons_self)).1
    | notTaken _ _ =>
      exact absurd rfl (hfine _ (List.mem_append_right _ List.mem_cons_self)).2

end Handling

/-! ### What an exchange promises -/

variable [VersionResolver υ]

/-- The connection at the end of the wait for a request, in the exchange at a stage. -/
def waited (s : Service) (stage : Stage) (c : Connection υ) : Connection υ :=
  let b := c.beginExchange s (stage.idleTimeout s.settings)
  if b.isCancelledFirst then b else (b.receiveRequest s).2

/-- What the exchange at a stage promises of a connection that ends as `c'`. -/
structure Graceful (s : Service) (stage : Stage) (c c' : Connection υ) : Prop where
  /-- A request that has been received is handled in full, by the pipeline as it is then. -/
  answers : ∀ {q}, Hands s stage c q →
    ∃ es rest, Handled ((s.pipeline c.handled).executionOf c.client.subject.remote q)
        (waited s stage c).timeline.now es ∧
      c'.timeline.events = (waited s stage c).timeline.events ++ es ++ rest
  /-- The wait for a request is over when cancellation comes, or at once if that has come before. -/
  prompt : ∀ {moment}, c'.timeline.cancelAt = some moment →
    (waited s stage c).timeline.now ≤ max c.timeline.now moment
  /-- If the wait is cut short, the client is closed at once, behind the reads. -/
  givesUp : ∀ {cause},
    (c.exchange s (stage.idleTimeout s.settings)).1 = .ofStop (.interrupted cause) →
      ∃ reads, (∀ e ∈ reads, e.2.IsRead) ∧
        c'.timeline.events = c.timeline.events ++ reads ++
          [((waited s stage c).timeline.now, .wire .shut)]

theorem waited_of_begun
    (h : (c.beginExchange s (stage.idleTimeout s.settings)).isCancelledFirst = false) :
    waited s stage c = ((c.beginExchange s (stage.idleTimeout s.settings)).receiveRequest s).2 := by
  unfold waited
  dsimp only
  rw [h]
  rfl

/-- **The wait for a request is over when cancellation comes**, or before it begins. -/
theorem prompt_waited (stage : Stage) (hheeds : s.heedsCancel = true)
    (hp : ∃ p, c.client.subject.peer? = some p) :
    c.timeline.Prompt (waited s stage c).timeline ∧
      ∃ es, Client.Later c.client (waited s stage c).client es := by
  have hbegin : Client.Later c.client
      (c.beginExchange s (stage.idleTimeout s.settings)).client [] :=
    ⟨hp, rfl, Timeline.later_under ..⟩
  have hprompt : c.timeline.Prompt (c.beginExchange s (stage.idleTimeout s.settings)).timeline :=
    Timeline.prompt_under ..
  unfold waited
  dsimp only
  split
  · exact ⟨hprompt, [], hbegin⟩
  · obtain ⟨es, -, hlater⟩ := later_receiveRequest s hbegin.peer
    obtain ⟨hreceive, -⟩ := prompt_receiveRequest (s := s) hbegin.peer hheeds
    exact ⟨hprompt.trans hreceive, es, hbegin.nil_trans hlater⟩

/-- A request that has been received is handled where the wait for it has ended. -/
theorem exchange_of_hands (h : Hands s stage c q) :
    c.exchange s (stage.idleTimeout s.settings) =
      (waited s stage c).handle (s.pipeline c.handled) q := by
  have hreceived := h.received
  have hcount : ((c.beginExchange s (stage.idleTimeout s.settings)).receiveRequest s).2.handled =
      c.handled := rfl
  rw [waited_of_begun h.notCancelled, ← hcount]
  unfold exchange
  dsimp only
  rw [h.notCancelled]
  generalize (c.beginExchange s (stage.idleTimeout s.settings)).receiveRequest s = x at hreceived ⊢
  obtain ⟨received, c₁⟩ := x
  obtain rfl : received = _ := hreceived
  rfl

/-- Behind the wait for a request, the exchange only goes on. -/
theorem later_exchange_waited (stage : Stage)
    (hp : ∃ p, (waited s stage c).client.subject.peer? = some p) :
    ∃ es, Client.Later (waited s stage c).client
      (c.exchange s (stage.idleTimeout s.settings)).2.client es := by
  have hstep := comesTo_exchange s (stage.idleTimeout s.settings) c
  unfold waited at hp ⊢
  dsimp only at hp ⊢
  generalize c.exchange s (stage.idleTimeout s.settings) = x at hstep ⊢
  cases hstep with
  | cancelled hc =>
    rw [hc] at hp ⊢
    exact ⟨[], hp, rfl, Timeline.later_under ..⟩
  | @request q c₁ hc hr =>
    rw [hc, hr] at hp ⊢
    obtain ⟨es, hlater, -⟩ := later_handle (c := c₁) (p := s.pipeline c₁.handled) (q := q) rfl hp
    exact ⟨es, hlater⟩
  | @nothing why c₁ hc hr =>
    rw [hc, hr] at hp ⊢
    cases why.notice? with
    | none => exact ⟨[], Client.later_refl hp⟩
    | some n => exact ⟨_, hp, rfl, Timeline.later_record ..⟩
  | stopped hc hr =>
    rw [hc, hr] at hp ⊢
    exact ⟨[], Client.later_refl hp⟩

/-- An exchange ends with the wait for a request if that is cut short. -/
theorem now_exchange {cause : Interruption}
    (hp : ∃ p, (waited s stage c).client.subject.peer? = some p)
    (h : (c.exchange s (stage.idleTimeout s.settings)).1 = .ofStop (.interrupted cause)) :
    (c.exchange s (stage.idleTimeout s.settings)).2.timeline.now =
      (waited s stage c).timeline.now := by
  have hstep := comesTo_exchange s (stage.idleTimeout s.settings) c
  unfold waited at hp ⊢
  dsimp only at hp ⊢
  generalize c.exchange s (stage.idleTimeout s.settings) = x at h hstep ⊢
  cases hstep with
  | cancelled hc =>
    rw [hc]
    rfl
  | @request q c₁ hc hr =>
    rw [hc, hr] at hp
    obtain ⟨es, -, hhandling⟩ := later_handle (c := c₁) (p := s.pipeline c₁.handled) (q := q) rfl hp
    rw [h] at hhandling
    cases cause <;> cases hhandling
  | nothing _ _ => cases cause <;> cases h
  | stopped hc hr =>
    rw [hc, hr]
    rfl

/-- An exchange in which the wait is cut short only reads. -/
theorem Exchanged.reads {cause : Interruption}
    (h : Exchanged s c (.ofStop (.interrupted cause)) es) : ∀ e ∈ es, e.2.IsRead := by
  generalize ho : Outcome.ofStop (.interrupted cause) = outcome at h
  cases h with
  | notBegun _ => exact fun e he => absurd he List.not_mem_nil
  | handled _ _ _ _ hhandling => cases cause <;> cases ho <;> cases hhandling
  | nothing _ _ _ _ => cases cause <;> cases ho
  | @stopped e _ _ _ hreceiving =>
    cases hreceiving with
    | reads hreads _ => exact hreads
    | readFault _ => cases cause <;> cases ho

/-- **An exchange hands nothing but the request that it receives**, when the wait for it ends. -/
theorem Exchanged.eq_of_handed {outcome : Outcome}
    (h : Exchanged s c outcome es) (hmem : (m, .handed q) ∈ es) :
    c.isCancelledFirst = false ∧ (c.receiveRequest s).1 = .ok (.request q) ∧
      m = (c.receiveRequest s).2.timeline.now := by
  have hread {reads : List (Nat × Event)} (hreads : ∀ e ∈ reads, e.2.IsRead) :
      (m, .handed q) ∉ reads := by
    intro hmem
    obtain ⟨count, he⟩ := hreads _ hmem
    cases he
  cases h with
  | notBegun _ => cases hmem
  | handled hc hr hreads hx hhandling =>
    rcases List.mem_append.mp hmem with hmem | hmem
    · exact absurd hmem (hread hreads)
    · obtain ⟨rfl, rfl⟩ := hhandling.eq_of_handed hmem
      rw [hx]
      exact ⟨hc, hr, rfl⟩
  | nothing _ _ hreads hreport =>
    rcases List.mem_append.mp hmem with hmem | hmem
    · exact absurd hmem (hread hreads)
    · obtain ⟨n, -, he⟩ := hreport _ hmem
      cases he
  | stopped _ _ hreceiving =>
    cases hreceiving with
    | reads hreads _ => exact absurd hmem (hread hreads)
    | readFault hreads =>
      rcases List.mem_append.mp hmem with hmem | hmem
      · exact absurd hmem (hread hreads)
      · cases List.mem_singleton.mp hmem

/-! ### The loop -/

theorem later_turn (hp : ∃ p, c.client.subject.peer? = some p)
    (h : turn? s stage c = some (stage', c')) : ∃ es, Client.Later c.client c'.client es := by
  rcases turn_cases h with ⟨hx, -⟩ | ⟨c₁, hx, -, rfl⟩
  · exact exists_later_exchange hp hx
  · obtain ⟨es, hlater⟩ := exists_later_exchange hp hx
    exact ⟨es, hlater.peer, hlater.remote, hlater.timeline.trans_nil (Timeline.later_pass ..)⟩

theorem later_of_reaches {x y : Stage × Connection υ}
    (hp : ∃ p, x.2.client.subject.peer? = some p) (h : Reaches s x y) :
    ∃ es, Client.Later x.2.client y.2.client es := by
  induction h with
  | refl => exact ⟨[], Client.later_refl hp⟩
  | tail _ hturn ih =>
    obtain ⟨es, hlater⟩ := ih
    obtain ⟨es', hlater'⟩ := later_turn hlater.peer hturn
    exact ⟨_, hlater.trans hlater'⟩

theorem isOver_of_serve (h : (serve s stage c).1 = .closed) : c.timeline.isOver = false := by
  rw [serve_eq] at h
  cases hover : c.timeline.isOver with
  | false => rfl
  | true =>
    rw [hover] at h
    cases h

omit [VersionResolver υ] in
theorem later_of_close (hp : ∃ p, c.client.subject.peer? = some p) (h : close c = (.closed, c')) :
    Client.Later c.client c'.client [(c.timeline.now, .wire .shut)] := by
  obtain rfl : (close c).2 = c' := congrArg Prod.snd h
  exact Client.later_close hp

theorem exists_later_of_serve (hp : ∃ p, c.client.subject.peer? = some p)
    (h : serve s stage c = (.closed, c')) : ∃ es, Client.Later c.client c'.client es := by
  obtain ⟨last, es, hlast, hlater, -⟩ := course_serve hp (congrArg Prod.fst h)
  rw [h] at hlast
  exact ⟨_, hlater.trans (later_of_close hlater.peer hlast.symm)⟩

/-- Behind an exchange, the client is closed at once or behind others that follow. -/
theorem later_exchange_closed (hp : ∃ p, c.client.subject.peer? = some p)
    (hconn : c.client.subject.isConnected = true) (h : serve s stage c = (.closed, c')) :
    ∃ es, Client.Later (c.exchange s (stage.idleTimeout s.settings)).2.client c'.client es := by
  obtain ⟨es, hlater, -⟩ := later_exchange (s := s) (stage.idleTimeout s.settings) hp
  have hpeer := hlater.peer
  have hover : c.timeline.isOver = false := isOver_of_serve (congrArg Prod.fst h)
  rw [serve_eq, hover, hconn, if_neg Bool.false_ne_true, Bool.not_true,
    if_neg Bool.false_ne_true] at h
  generalize c.exchange s (stage.idleTimeout s.settings) = x at h hpeer ⊢
  obtain ⟨outcome, c₁⟩ := x
  cases outcome with
  | handled keepAlive =>
    cases keepAlive with
    | true => exact exists_later_of_serve hpeer h
    | false => exact ⟨_, later_of_close hpeer h⟩
  | noRequest =>
    dsimp only at h
    cases hlook : stage.lookAgain? s.settings with
    | none =>
      rw [hlook] at h
      exact ⟨_, later_of_close hpeer h⟩
    | some stage' =>
      rw [hlook] at h
      have hpass : Client.Later c₁.client
          (c₁.onTimeline (·.pass s.settings.backoff)).client [] :=
        ⟨hpeer, rfl, Timeline.later_pass ..⟩
      obtain ⟨es', hend⟩ := exists_later_of_serve hpass.peer h
      exact ⟨_, hpass.nil_trans hend⟩
  | idle | cancelled => exact ⟨_, later_of_close hpeer h⟩
  | failed e =>
    have hnotify : Client.Later c₁.client (c₁.notify (.exchangeFailed e)).client
        [(c₁.timeline.now, .notice (.exchangeFailed e))] :=
      ⟨hpeer, rfl, Timeline.later_record ..⟩
    exact ⟨_, hnotify.trans (later_of_close hnotify.peer h)⟩
  | stalled => cases h

/-- **Every exchange of a connection that is closed in the end keeps what it promises.** -/
theorem graceful_of_closed (hheeds : s.heedsCancel = true)
    (hp : ∃ p, c.client.subject.peer? = some p) (hconn : c.client.subject.isConnected = true)
    (h : serve s stage c = (.closed, c')) (hover : c'.timeline.isOver = false) :
    Graceful s stage c c' := by
  obtain ⟨hprompt, es₀, hwaited⟩ := prompt_waited (s := s) stage hheeds hp
  obtain ⟨es₁, hexchange⟩ := later_exchange_waited stage hwaited.peer
  obtain ⟨es₂, hend⟩ := later_exchange_closed hp hconn h
  constructor
  case answers =>
    intro q hhands
    have hx : (s.pipeline c.handled).executionOf c.client.subject.remote q =
        (s.pipeline c.handled).executionOf (waited s stage c).client.subject.remote q := by
      rw [hwaited.remote]
    obtain ⟨es, hhandle, hhandling⟩ := later_handle hx hwaited.peer
    rw [exchange_of_hands hhands] at hend
    refine ⟨es, es₂, hhandling.handled, ?_⟩
    rw [List.append_assoc]
    exact (hhandle.trans hend).timeline.events hover
  case prompt =>
    intro moment hmoment
    rcases (hexchange.trans hend).timeline.cancelAt hmoment with hcancel | hlate
    · exact hprompt.now_le hcancel
    · exact Nat.le_trans hlate (Nat.le_max_right ..)
  case givesUp =>
    intro cause hcause
    obtain ⟨reads, hlater, hexchanged, -⟩ :=
      later_exchange (s := s) (stage.idleTimeout s.settings) hp
    have hnow := now_exchange hwaited.peer hcause
    rw [hcause] at hexchanged
    have hstart : c.timeline.isOver = false := isOver_of_serve (congrArg Prod.fst h)
    rw [serve_eq, hstart, hconn, if_neg Bool.false_ne_true, Bool.not_true,
      if_neg Bool.false_ne_true] at h
    generalize c.exchange s (stage.idleTimeout s.settings) = x at h hlater hcause hnow
    obtain ⟨outcome, c₁⟩ := x
    obtain rfl : outcome = _ := hcause
    have hclose : close c₁ = (.closed, c') := by
      cases cause with
      | timedOut | cancelled => exact h
      | stalled => cases h
    refine ⟨reads, hexchanged.reads, ?_⟩
    rw [List.append_assoc, ← hnow]
    exact (hlater.trans (later_of_close hlater.peer hclose)).timeline.events hover

/-! ### What is handed -/

/-- Every request that is handed in a stretch is received by an exchange that the loop comes to, and
handed when the wait for it ends. -/
def HandedBy (s : Service) (stage : Stage) (c : Connection υ) (es : List (Nat × Event)) : Prop :=
  ∀ m q, (m, .handed q) ∈ es → ∃ stage' b, Reaches s (stage, c) (stage', b) ∧
    Hands s stage' b q ∧ m = (waited s stage' b).timeline.now

theorem HandedBy.append (h : HandedBy s stage c es) (h' : HandedBy s stage c es') :
    HandedBy s stage c (es ++ es') := by
  intro m q hmem
  rcases List.mem_append.mp hmem with hmem | hmem
  · exact h m q hmem
  · exact h' m q hmem

theorem handedBy_singleton {e : Event} (m : Nat) (h : ¬ e.IsWork) :
    HandedBy s stage c [(m, e)] := by
  intro m' q hmem
  cases List.mem_singleton.mp hmem
  exact absurd (.handed q) h

theorem handedBy_shut (m : Nat) : HandedBy s stage c [(m, .wire .shut)] :=
  handedBy_singleton m nofun

theorem handedBy_notice (m : Nat) (n : Notice) : HandedBy s stage c [(m, .notice n)] :=
  handedBy_singleton m nofun

/-- What is behind a turn is behind the one before it. -/
theorem HandedBy.of_turn (hturn : turn? s stage c = some (stage', c'))
    (h : HandedBy s stage' c' es) : HandedBy s stage c es := by
  intro m q hmem
  obtain ⟨stage'', b, hreach, hb⟩ := h m q hmem
  exact ⟨stage'', b, .head hturn hreach, hb⟩

/-- An exchange hands nothing but the request that it receives. -/
theorem handedBy_exchange {outcome : Outcome} (hp : ∃ p, c.client.subject.peer? = some p)
    (hconn : ¬ (!c.client.subject.isConnected) = true)
    (hx : c.exchange s (stage.idleTimeout s.settings) = (outcome, c'))
    (hover : c'.timeline.isOver = false) :
    ∃ es, c'.timeline.events = c.timeline.events ++ es ∧ HandedBy s stage c es := by
  obtain ⟨es, hlater, hexchanged, -⟩ := later_exchange (s := s) (stage.idleTimeout s.settings) hp
  rw [hx] at hlater
  refine ⟨es, hlater.timeline.events hover, fun m q hmem => ?_⟩
  obtain ⟨hc, hr, hm⟩ := hexchanged.eq_of_handed hmem
  refine ⟨stage, c, .refl, ⟨hlater.timeline.isOver hover, ?_, hc, hr⟩, ?_⟩
  · rwa [Bool.not_eq_true, Bool.not_eq_false'] at hconn
  · rw [waited_of_begun hc, hm]

omit [VersionResolver υ] in
theorem events_close (hp : ∃ p, c.client.subject.peer? = some p)
    (hclosed : (close c).1 = .closed) :
    (close c).2.timeline.events = c.timeline.events ++ [(c.timeline.now, .wire .shut)] :=
  (Client.later_close hp).timeline.events (close_eq_closed_iff.mp hclosed)

/-- **The loop hands nothing but what the exchanges receive that it comes to.** -/
theorem handedBy_serve (hp : ∃ p, c.client.subject.peer? = some p)
    (hclosed : (serve s stage c).1 = .closed) :
    ∃ es, (serve s stage c).2.timeline.events = c.timeline.events ++ es ∧
      HandedBy s stage c es := by
  fun_induction serve s stage c with
  | case1 stage c hover => cases hclosed
  | case2 stage c hover hconn => exact ⟨_, events_close hp hclosed, handedBy_shut _⟩
  | case3 stage c hover hconn c' hx ih =>
    have hover' : c'.timeline.isOver = false := isOver_of_serve hclosed
    obtain ⟨_, hlater⟩ := exists_later_exchange hp hx
    obtain ⟨es, hes, hhanded⟩ := handedBy_exchange hp hconn hx hover'
    obtain ⟨es', hes', hhanded'⟩ := ih hlater.peer hclosed
    have hturn := turn?_of_handled (by simpa using hover) (by simpa using hconn) hx
    refine ⟨es ++ es', ?_, hhanded.append (hhanded'.of_turn hturn)⟩
    rw [hes', hes, List.append_assoc]
  | case5 stage c hover hconn c' hx stage' hlook ih =>
    have hpass := Timeline.later_pass c'.timeline s.settings.backoff
    have hover' : c'.timeline.isOver = false := hpass.isOver (isOver_of_serve hclosed)
    obtain ⟨_, hlater⟩ := exists_later_exchange hp hx
    obtain ⟨es, hes, hhanded⟩ := handedBy_exchange hp hconn hx hover'
    obtain ⟨es', hes', hhanded'⟩ := ih hlater.peer hclosed
    have hturn := turn?_of_noRequest (by simpa using hover) (by simpa using hconn) hx hlook
    have hsame : (c'.onTimeline (·.pass s.settings.backoff)).timeline.events =
      c'.timeline.events := rfl
    refine ⟨es ++ es', ?_, hhanded.append (hhanded'.of_turn hturn)⟩
    rw [hes', hsame, hes, List.append_assoc]
  -- The loop ends with this exchange.
  | case4 stage c hover hconn c' hx | case6 stage c hover hconn c' hx
  | case7 stage c hover hconn c' hx | case8 stage c hover hconn c' hx =>
    obtain ⟨_, hlater⟩ := exists_later_exchange hp hx
    obtain ⟨es, hes, hhanded⟩ := handedBy_exchange hp hconn hx (isOver_of_closed hclosed)
    refine ⟨es ++ [(c'.timeline.now, .wire .shut)], ?_, hhanded.append (handedBy_shut _)⟩
    rw [events_close hlater.peer hclosed, hes, List.append_assoc]
  | case9 stage c hover hconn e c' hx =>
    have hnotify := Timeline.later_record c'.timeline (.notice (.exchangeFailed e))
    have hover' := isOver_of_closed hclosed
    obtain ⟨_, hlater⟩ := exists_later_exchange hp hx
    obtain ⟨es, hes, hhanded⟩ := handedBy_exchange hp hconn hx (hnotify.isOver hover')
    have hnotified : (c'.notify (.exchangeFailed e)).timeline.events = c'.timeline.events ++ _ :=
      hnotify.events hover'
    have hend := events_close (c := c'.notify (.exchangeFailed e)) hlater.peer hclosed
    have hnotice := hhanded.append (handedBy_notice c'.timeline.now (.exchangeFailed e))
    have hall := hnotice.append (handedBy_shut (c'.notify (.exchangeFailed e)).timeline.now)
    refine ⟨_, ?_, hall⟩
    rw [hend, hnotified, hes]
    simp only [List.append_assoc]
  | case10 stage c hover hconn c' hx => cases hclosed

/-! ### The whole run -/

/-- **Shutting down a connection.**  A connection that heeds cancellation is closed in the end,
unless nothing is ever cancelled: not from the handshake on, and not by the end.

When it is closed, the client has been closed once, and nothing has been done to it behind that.
Whatever came first when cancellation and something else came at once, each exchange that the loop
has come to has kept what it promises (`Graceful`): a request that it had received has been run
through the pipeline, and the reply to it has been written and flushed in full, if there was one
that could be written and no write failed; it has not waited for the client behind cancellation;
and where its wait was cut short, the client was closed at once, and nothing was handed to the
pipeline or written any more.  What was handed to the pipeline has been received by such an
exchange, so a request of which a part was missing when cancellation came has been handed only if
the rest was there without waiting. -/
theorem run_shutdown (hheeds : s.heedsCancel = true) :
    ((c.shakeHands s).2.timeline.horizon = none → (run s c).1 = .closed ∨
      (c.shakeHands s).2.timeline.cancelAt = none ∧ (run s c).2.timeline.cancelAt = none) ∧
    ∀ c', run s c = (.closed, c') → ∃ last behind, c' = (close last).2 ∧
      last.timeline.events = (c.shakeHands s).2.timeline.events ++ behind ∧
      (∀ e ∈ behind, ¬ e.2.IsFrame) ∧
      ((∃ p, (c.shakeHands s).2.client.subject.peer? = some p) →
        c'.timeline.events = last.timeline.events ++ [(last.timeline.now, .wire .shut)]) ∧
      ((c.shakeHands s).1 = .ok () → ∀ stage b,
        Reaches s (.fresh, (c.shakeHands s).2) (stage, b) → b.client.subject.isConnected = true →
          Graceful s stage b c') ∧
      ∀ m q, (m, .handed q) ∈ behind → (c.shakeHands s).1 = .ok () ∧
        ∃ stage b, Reaches s (.fresh, (c.shakeHands s).2) (stage, b) ∧ Hands s stage b q ∧
          m = (waited s stage b).timeline.now := by
  refine ⟨closed_run hheeds, fun c' h => ?_⟩
  obtain ⟨last, behind, rfl, hclosed, hlater, hcourse, -, herror, hlast⟩ := course_run h
  have hevents := hlater.events (isOver_of_closed hclosed)
  have hserve (hshake : (c.shakeHands s).1 = .ok ()) :
      serve s .fresh (c.shakeHands s).2 = (.closed, (close last).2) := by
    rw [← run_eq_serve hshake, h]
  have hshut (hp : ∃ p, (c.shakeHands s).2.client.subject.peer? = some p) :=
    events_close (hlast hp) hclosed
  refine ⟨last, behind, rfl, hevents, hcourse.frame, hshut,
    fun hshake stage b hreach hconn => ?_, fun m q hmem => ?_⟩
  · obtain ⟨es, hb⟩ := later_of_reaches (exists_peer_of_shakeHands hshake) hreach
    have hend : serve s stage b = (.closed, (close last).2) := by
      rw [← hserve hshake]
      exact (serve_of_reaches hreach).symm
    exact graceful_of_closed hheeds hb.peer hconn hend (close_eq_closed_iff.mp hclosed)
  · have hshake : (c.shakeHands s).1 = .ok () := by
      cases hresult : (c.shakeHands s).1 with
      | ok _ => rfl
      | error e =>
        obtain ⟨m', error, rfl⟩ := herror e hresult
        cases List.mem_singleton.mp hmem
    have hp := exists_peer_of_shakeHands hshake
    obtain ⟨es, hes, hhanded⟩ := handedBy_serve hp (congrArg Prod.fst (hserve hshake))
    -- The stretch is what is behind the handshake, up to the close.
    have hsame : behind ++ [(last.timeline.now, .wire .shut)] = es := by
      rw [hserve hshake, hshut hp, hevents, List.append_assoc] at hes
      exact List.append_cancel_left hes
    exact ⟨hshake, hhanded m q (hsame ▸ List.mem_append_left _ hmem)⟩

/-- A client that falls silent in the middle of its second request, before work is cancelled: the
first one is answered, the wait for the second ends when cancellation comes. -/
theorem run_shutdown_silent :
    let s : Service := { pipeline := fun _ => ⟨[.notFound]⟩ }
    let c := ofClient s.settings TokenParser.mk ⟨.plain
      { script := [.data (Utf8.encode "GET / HTTP/1.1\r\nConnection: keep-alive\r\n\r\n".toList),
          .pause 3, .data (Utf8.encode "GET /b HTTP/1.1\r\nHo".toList)]
        ending := .silent }, { cancelAt := some 5 }⟩
    let q : Request :=
      { method := ⟨"GET".toList, by decide⟩, path := "/".toList, query := {}
        headers := ⟨[⟨.connection, .ofVisible "keep-alive".toList (by decide)⟩]⟩
        protocol := "HTTP/1.1".toList, version := ⟨1, 1⟩, body := .empty }
    s.heedsCancel = true ∧ ∃ c' b before es rest reads, run s c = (.closed, c') ∧
      Hands s .fresh (c.shakeHands s).2 q ∧ Graceful s .fresh (c.shakeHands s).2 c' ∧
      c'.timeline.events = before ++ es ++ rest ∧
      Handled ((s.pipeline 0).executionOf none q) 0 es ∧
      octetsIn es = Utf8.encode
        ("HTTP/1.1 404 Not Found\r\ncontent-type: text/plain; charset=utf-8\r\n".toList ++
          "content-length: 16\r\nconnection: keep-alive\r\n\r\nno resource at /".toList) ∧
      Reaches s (.fresh, (c.shakeHands s).2) (.kept 0, b) ∧ Graceful s (.kept 0) b c' ∧
      c'.timeline.events = b.timeline.events ++ reads ++ [(5, .wire .shut)] ∧
      ∀ e ∈ reads, e.2.IsRead := by
  intro s c q
  let a := (c.shakeHands s).2
  let b := (a.exchange s none).2
  let d := (b.exchange s none).2
  have hfirst : a.exchange s none = (.handled true, b) := Prod.ext (by decide +kernel) rfl
  have hsecond : b.exchange s none = (.cancelled, d) := Prod.ext (by decide +kernel) rfl
  have hopen : a.timeline.isOver = false ∧ a.client.subject.isConnected = true := by
    decide +kernel
  have hopen' : b.timeline.isOver = false ∧ b.client.subject.isConnected = true := by
    decide +kernel
  have hhands : Hands s .fresh a q :=
    ⟨hopen.1, hopen.2, by decide +kernel, by decide +kernel⟩
  have hreaches : Reaches s (.fresh, a) (.kept 0, b) :=
    .single (turn?_of_handled hopen.1 hopen.2 hfirst)
  have hserve : run s c = close d := by
    rw [run_eq_serve rfl, serve_of_reaches hreaches, serve_eq, hopen'.1, hopen'.2,
      if_neg Bool.false_ne_true, Bool.not_true, if_neg Bool.false_ne_true]
    rw [show exchange s ((Stage.kept 0).idleTimeout s.settings) b = (.cancelled, d) from hsecond]
  have hrun : run s c = (.closed, (close d).2) :=
    hserve.trans (Prod.ext (by decide +kernel) rfl)
  obtain ⟨-, hclosed⟩ := run_shutdown (s := s) (c := c) rfl
  obtain ⟨-, -, -, -, -, -, hgraceful, -⟩ := hclosed _ hrun
  have hgraceful₁ := hgraceful rfl .fresh a .refl hopen.2
  have hgraceful₂ := hgraceful rfl (.kept 0) b hreaches hopen'.2
  obtain ⟨es, rest, hhandled, hevents⟩ := hgraceful₁.answers hhands
  obtain ⟨reads, hreads, hend⟩ := hgraceful₂.givesUp
    (show _ = Outcome.ofStop (.interrupted .cancelled) from congrArg Prod.fst hsecond)
  -- Nothing of the run is a failure, so nothing in the stretch of the answer is.
  have hfine : ∀ e ∈ (close d).2.timeline.events, e.2 ≠ .wire .writeFault ∧
      e.2 ≠ .wire (.wrote []) ∧ e.2 ≠ .wire .flushFault := by decide +kernel
  have hstart : (waited s .fresh a).timeline.now = 0 := by decide +kernel
  have hstop : (waited s (.kept 0) b).timeline.now = 5 := by decide +kernel
  rw [hstart] at hhandled
  rw [hstop] at hend
  obtain ⟨hoctets, -⟩ := hhandled.sent rfl (by decide +kernel) fun e he => by
    obtain ⟨hfault, hnothing, hflush⟩ := hfine e <| by
      rw [hevents]
      exact List.mem_append_left _ (List.mem_append_right _ he)
    refine ⟨fun hlost => ?_, hflush⟩
    generalize e.2 = event at hlost hfault hnothing
    cases hlost with
    | fault => exact hfault rfl
    | nothing => exact hnothing rfl
  exact ⟨rfl, _, b, _, es, rest, reads, hrun, hhands, hgraceful₁, hevents, hhandled,
    hoctets.trans (by decide +kernel), hreaches, hgraceful₂, hend, hreads⟩

end HttpWire.Connection
