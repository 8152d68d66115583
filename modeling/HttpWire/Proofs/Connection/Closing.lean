import HttpWire.Proofs.Connection.Course
import HttpWire.Proofs.Wire.Waiting

/-!
# How a connection is closed

The wait for a request is over when cancellation comes, if it heeds that (`prompt_receiveRequest`).
So a connection is closed in the end, unless nothing is ever cancelled (`closed_serve`,
`closed_run`).

A connection that is closed has shaken hands and taken its course (`run_course`).
-/

namespace HttpWire.Connection

open Event

variable {υ : Type} {s : Service} {stage : Stage} {c c' : Connection υ}

/-! ### Closing -/

/-- Closing leaves a later timeline, whatever the client is. -/
theorem exists_later_close (c : Connection υ) :
    ∃ es, c.timeline.Later (close c).2.timeline es := by
  show ∃ es, c.client.timeline.Later (Client.close c.client).2.timeline es
  generalize c.client = x
  obtain ⟨client, t⟩ := x
  cases client with
  | plain peer => exact ⟨_, (Peer.later_close ⟨peer, t⟩).timeline⟩
  | secured client =>
    obtain ⟨state, remote⟩ := client
    cases state with
    | established session => exact ⟨_, (Peer.later_close ⟨session, t⟩).timeline⟩
    | pending inner negotiator => exact ⟨_, (Peer.later_close ⟨inner, t⟩).timeline⟩
    | failed => exact ⟨_, Timeline.later_refl t⟩

theorem close_eq_closed_iff :
    (close c).1 = .closed ↔ (close c).2.timeline.isOver = false := by
  change (if (close c).2.timeline.isOver then Ended.unfinished else .closed) = .closed ↔ _
  cases (close c).2.timeline.isOver with
  | false => exact ⟨fun _ => rfl, fun _ => rfl⟩
  | true => exact ⟨nofun, nofun⟩

/-- A client that is closed in sight was in sight before. -/
theorem isOver_of_closed (h : (close c).1 = .closed) : c.timeline.isOver = false := by
  obtain ⟨es, hlater⟩ := exists_later_close c
  exact hlater.isOver (close_eq_closed_iff.mp h)

/-- Without a horizon, closing is always seen. -/
theorem closed_of_horizon (h : c.timeline.horizon = none) : (close c).1 = .closed := by
  obtain ⟨es, hlater⟩ := exists_later_close c
  rw [close_eq_closed_iff]
  exact Timeline.isOver_of_horizon (hlater.horizon.trans h)

/-! ### Waiting for a request -/

/-- A client from which a connection reads that heeds cancellation, and has done so since `t`. -/
structure Heeding (t : Timeline) (client : Timed Client) : Prop where
  peer : ∃ p, client.subject.peer? = some p
  cancellable : client.timeline.limits.cancellable = true
  prompt : t.Prompt client.timeline

theorem readLeads_heeding (t : Timeline) (limit : Nat) (client : Timed Client)
    (h : Heeding t client) :
    ReadLeads (Heeding t)
      (fun e client => t.Prompt client.timeline ∧
        (e = .interrupted .stalled → client.timeline.cancelAt = none))
      (ByteSource.read limit client) := by
  have hprompt := h.prompt.trans (Client.prompt_read limit h.peer h.cancellable)
  have hstuck := Client.cancelAt_of_stalled limit h.peer h.cancellable
  have hpeer := (Client.later_read h.peer limit).peer
  have hlimits := Client.limits_read limit h.peer
  change ReadLeads _ _ (Client.read limit client)
  generalize Client.read limit client = x at hprompt hstuck hpeer hlimits
  obtain ⟨answer, client'⟩ := x
  cases answer with
  | ok bytes => exact ⟨hpeer, (congrArg Limits.cancellable hlimits).trans h.cancellable, hprompt⟩
  | error e =>
    refine ⟨hprompt, fun he => ?_⟩
    rw [he] at hstuck
    exact hstuck rfl

variable [VersionResolver υ]

/-- **The wait for a request is over when cancellation comes**, if it heeds that, and so it is stuck
only if nothing is cancelled. -/
theorem prompt_receiveRequest (hp : ∃ p, c.client.subject.peer? = some p)
    (hc : c.timeline.limits.cancellable = true) :
    c.timeline.Prompt (c.receiveRequest s).2.timeline ∧
      ((c.receiveRequest s).1 = .error (.interrupted .stalled) →
        (c.receiveRequest s).2.timeline.cancelAt = none) := by
  have hstart : Heeding c.timeline c.reader.source := ⟨hp, hc, Timeline.prompt_refl _⟩
  have hstop := BufferedReader.stoppable fun n s _ => readLeads_heeding c.timeline n s
  have hleads := hstop.receive s.settings.allowTrailers c.versions hstart
  unfold receiveRequest
  generalize HttpWire.receive s.settings.allowTrailers c.versions c.reader = x at hleads
  cases hleads with
  | ok h => exact ⟨h.prompt.trans (Timeline.prompt_under ..), nofun⟩
  | refused _ h => exact ⟨h.prompt.trans (Timeline.prompt_under ..), nofun⟩
  | @stopped e _ h =>
    obtain ⟨hprompt, hstuck⟩ := h
    refine ⟨hprompt.trans (Timeline.prompt_under ..), fun he => ?_⟩
    cases e with
    | fault io => cases he
    | interrupted cause =>
      cases he
      exact hstuck rfl

/-- An exchange that heeds cancellation is stuck only if nothing is cancelled. -/
theorem cancelAt_of_exchange {idleTimeout : Option Nat} (hheeds : s.heedsCancel = true)
    (hp : ∃ p, c.client.subject.peer? = some p)
    (hx : c.exchange s idleTimeout = (.stalled, c')) : c'.timeline.cancelAt = none := by
  obtain ⟨es, -, hlater⟩ := later_receiveRequest (c := c.beginExchange s idleTimeout) s hp
  have hprompt := prompt_receiveRequest (s := s) (c := c.beginExchange s idleTimeout) hp hheeds
  have hstep := comesTo_exchange s idleTimeout c
  rw [hx] at hstep
  generalize heq : (Outcome.stalled, c') = x at hstep
  cases hstep with
  | cancelled _ => cases heq
  | @request q c₁ _ hr =>
    rw [hr] at hlater
    obtain ⟨es', -, hhandling⟩ := later_handle (p := s.pipeline c₁.handled) (q := q) rfl hlater.peer
    rw [← heq] at hhandling
    cases hhandling
  | nothing _ _ => cases heq
  | @stopped e c₁ _ hr =>
    rw [hr] at hprompt
    rcases e with e | _ | _ | _
    · cases heq
    · cases heq
    · cases heq
    · cases heq
      exact hprompt.2 rfl

/-! ### The end of the loop -/

/-- **The loop over exchanges ends and the client is closed**, unless nothing is ever cancelled. -/
theorem closed_serve (hheeds : s.heedsCancel = true) (hp : ∃ p, c.client.subject.peer? = some p)
    (hhorizon : c.timeline.horizon = none) :
    (serve s stage c).1 = .closed ∨
      c.timeline.cancelAt = none ∧ (serve s stage c).2.timeline.cancelAt = none := by
  -- What is cancelled stays so.
  have hnone {t t' : Timeline} {es : List (Nat × Event)} (h : t.Later t' es)
      (hnone : t'.cancelAt = none) : t.cancelAt = none := by
    cases hcancel : t.cancelAt with
    | none => rfl
    | some m =>
      have hsome := h.isSome (by rw [hcancel]; rfl)
      rw [hnone] at hsome
      cases hsome
  fun_induction serve s stage c with
  | case1 stage c hover =>
    rw [Timeline.isOver_of_horizon hhorizon] at hover
    cases hover
  | case2 stage c hover hconn => exact .inl (closed_of_horizon hhorizon)
  | case3 stage c hover hconn c' hx ih =>
    obtain ⟨es, h⟩ := exists_later_exchange hp hx
    rcases ih h.peer (h.timeline.horizon.trans hhorizon) with hclosed | ⟨hstart, hend⟩
    · exact .inl hclosed
    · exact .inr ⟨hnone h.timeline hstart, hend⟩
  | case5 stage c hover hconn c' hx stage' hlook ih =>
    obtain ⟨es, h⟩ := exists_later_exchange hp hx
    rcases ih h.peer (h.timeline.horizon.trans hhorizon) with hclosed | ⟨hstart, hend⟩
    · exact .inl hclosed
    · exact .inr ⟨hnone h.timeline hstart, hend⟩
  | case4 stage c hover hconn c' hx | case6 stage c hover hconn c' hx
  | case7 stage c hover hconn c' hx | case8 stage c hover hconn c' hx =>
    obtain ⟨es, h⟩ := exists_later_exchange hp hx
    exact .inl (closed_of_horizon (h.timeline.horizon.trans hhorizon))
  | case9 stage c hover hconn e c' hx =>
    obtain ⟨es, h⟩ := exists_later_exchange hp hx
    have hnotify := (Timeline.later_record c'.timeline (.notice (.exchangeFailed e))).horizon
    exact .inl (closed_of_horizon (hnotify.trans (h.timeline.horizon.trans hhorizon)))
  | case10 stage c hover hconn c' hx =>
    obtain ⟨es, h⟩ := exists_later_exchange hp hx
    have hend := cancelAt_of_exchange hheeds hp hx
    exact .inr ⟨hnone h.timeline hend, hend⟩

/-! ### The whole run -/

omit [VersionResolver υ] in
/-- A client that has shaken hands can be reached. -/
theorem exists_peer_of_shakeHands (h : (c.shakeHands s).1 = .ok ()) :
    ∃ p, (c.shakeHands s).2.client.subject.peer? = some p := by
  have hclient (x : Timed Client) (hx : (Client.handshake x).1 = .ok ()) :
      ∃ p, (Client.handshake x).2.subject.peer? = some p := by
    obtain ⟨client, t⟩ := x
    cases client with
    | plain peer => exact ⟨_, rfl⟩
    | secured client =>
      obtain ⟨state, remote⟩ := client
      cases state with
      | established session => exact ⟨session, rfl⟩
      | failed => cases hx
      | pending inner negotiator =>
        unfold Client.handshake Client.onEither SecuredClient.handshake at hx ⊢
        dsimp only at hx ⊢
        generalize negotiator ⟨inner, t⟩ = y at hx ⊢
        obtain ⟨negotiation, t'⟩ := y
        cases negotiation with
        | established session => exact ⟨session, rfl⟩
        | failed e => cases hx
        | abandoned cause => cases hx
  exact hclient _ h

/-- A client that has shaken hands is served. -/
theorem run_eq_serve (h : (c.shakeHands s).1 = .ok ()) :
    run s c = serve s .fresh (c.shakeHands s).2 := by
  unfold run
  generalize c.shakeHands s = x at h ⊢
  obtain ⟨result, shaken⟩ := x
  obtain rfl : result = _ := h
  rfl

omit [VersionResolver υ] in
/-- A peer is asked once to shake hands, and nothing else is done to it. -/
theorem later_shakeHands {peer : Peer} (hpeer : c.client.subject = .plain peer) :
    c.timeline.Later (c.shakeHands s).2.timeline [(c.timeline.now, .wire .handshake)] ∧
      ∃ peer', (c.shakeHands s).2.client.subject = .plain peer' := by
  obtain ⟨⟨⟨client, t⟩, _, _, _, _, _, _⟩, _, _, _⟩ := c
  obtain rfl : client = .plain peer := hpeer
  refine ⟨?_, _, rfl⟩
  have hlater := (Peer.later_handshake
    ⟨peer, t.under { deadline := some (t.now + s.settings.handshakeTimeout) }⟩).timeline
  exact ((Timeline.later_under ..).nil_trans hlater).trans_nil (Timeline.later_under ..)

omit [VersionResolver υ] in
/-- A peer that shakes hands in time is served, and no other one. -/
theorem shakeHands_eq_ok_iff {peer : Peer} (hpeer : c.client.subject = .plain peer) :
    (c.shakeHands s).1 = .ok () ↔
      ∃ ms, peer.conduct = .succeeds ms ∧ ms ≤ s.settings.handshakeTimeout := by
  obtain ⟨⟨⟨client, t⟩, _, _, _, _, _, _⟩, _, _, _⟩ := c
  obtain rfl : client = .plain peer := hpeer
  exact @Peer.handshake_eq_ok_iff s.settings.handshakeTimeout
    ⟨peer, t.under { deadline := some (t.now + s.settings.handshakeTimeout) }⟩ rfl rfl

/-- **A connection is closed in the end**, whether the client shakes hands or not, unless nothing is
ever cancelled. -/
theorem closed_run (hheeds : s.heedsCancel = true)
    (hhorizon : (c.shakeHands s).2.timeline.horizon = none) :
    (run s c).1 = .closed ∨
      (c.shakeHands s).2.timeline.cancelAt = none ∧ (run s c).2.timeline.cancelAt = none := by
  have hpeer := exists_peer_of_shakeHands (s := s) (c := c)
  have hnotify {c : Connection υ} (hhorizon : c.timeline.horizon = none) (error : ServeError) :
      (close (c.notify (.handshakeFailed error))).1 = .closed := by
    apply closed_of_horizon
    rw [← hhorizon]
    exact (Timeline.later_record c.timeline (.notice (.handshakeFailed error))).horizon
  unfold run
  generalize c.shakeHands s = x at hhorizon hpeer
  obtain ⟨result, shaken⟩ := x
  rcases result with (e | cause) | _
  · exact .inl (hnotify hhorizon _)
  · exact .inl (hnotify hhorizon _)
  · exact closed_serve hheeds (hpeer rfl) hhorizon

/-- **A connection that is closed has shaken hands and taken its course.** -/
theorem course_run (h : run s c = (.closed, c')) :
    ∃ last behind, c' = (close last).2 ∧ (close last).1 = .closed ∧
      (c.shakeHands s).2.timeline.Later last.timeline behind ∧ Course behind ∧
      LeavesContexts s (c.shakeHands s).2.client.subject.remote c.handled behind ∧
      (∀ e, (c.shakeHands s).1 = .error e →
        ∃ m error, behind = [(m, .notice (.handshakeFailed error))]) ∧
      ((∃ p, (c.shakeHands s).2.client.subject.peer? = some p) →
        ∃ p, last.client.subject.peer? = some p) := by
  have hsound (error : ServeError) : (Event.notice (.handshakeFailed error)).IsSound :=
    isSound_notice nofun
  have hpeer := exists_peer_of_shakeHands (s := s) (c := c)
  have hcount : (c.shakeHands s).2.handled = c.handled := rfl
  rw [← hcount]
  unfold run at h
  generalize c.shakeHands s = x at hpeer h
  obtain ⟨result, shaken⟩ := x
  rcases result with (e | cause) | _
  · exact ⟨_, _, (congrArg Prod.snd h).symm, congrArg Prod.fst h, Timeline.later_record ..,
      .answered (answered_singleton rfl rfl (hsound _)), leavesContexts_of_nil ⟨rfl, rfl⟩,
      fun _ _ => ⟨_, _, rfl⟩, id⟩
  · exact ⟨_, _, (congrArg Prod.snd h).symm, congrArg Prod.fst h, Timeline.later_record ..,
      .answered (answered_singleton rfl rfl (hsound _)), leavesContexts_of_nil ⟨rfl, rfl⟩,
      fun _ _ => ⟨_, _, rfl⟩, id⟩
  · obtain ⟨last, behind, hclose, hlater, hcourse, hleaves⟩ :=
      course_serve (hpeer rfl) (congrArg Prod.fst h)
    have hserve : serve s .fresh shaken = (.closed, c') := h
    rw [hserve] at hclose
    exact ⟨last, behind, congrArg Prod.snd hclose, (congrArg Prod.fst hclose).symm,
      hlater.timeline, hcourse, hleaves, nofun, fun _ => hlater.peer⟩

/-- **The course of a connection, whatever the client does.**  A connection that is closed has asked
the client to shake hands, has done what is on the log behind that, and has closed the client; in
between the client is not asked again and not closed.

If the handshake fails or takes too long, that is reported and nothing else happens.  Each request
that is handed to the pipeline is run through it as it is then, in the order of the requests.  The
octets that the client has accepted are those of the first replies that the pipeline has left, each
in full and in their order.  Of the next reply, if there is one, a front part may have been
accepted: none if the reply cannot be written, and not all only if a write was lost.  Behind the
first failure nothing is read, written or handed to the pipeline.

For a client that is a peer itself, all that is done to it is on the log. -/
theorem run_course (h : run s c = (.closed, c')) :
    ∃ last behind remote, c' = (close last).2 ∧
      last.timeline.events = (c.shakeHands s).2.timeline.events ++ behind ∧
      remote = (c.shakeHands s).2.client.subject.remote ∧
      (∀ e ∈ behind, ¬ e.2.IsFrame) ∧
      (∀ e, (c.shakeHands s).1 = .error e →
        ∃ m error, behind = [(m, .notice (.handshakeFailed error))]) ∧
      contextsIn behind =
        (s.executions remote c.handled (requestsIn behind)).map (·.context) ∧
      (∃ sent cut part,
        (contextsIn behind).filterMap Context.reply? = sent ++ cut.toList ∧
        octetsIn behind = sent.flatMap (·.encode.2) ++ part ∧
        (∀ reply ∈ sent, reply.encode.1 = .ok ()) ∧ (cut = none → part = []) ∧
        ∀ reply, cut = some reply →
          (∃ error, reply.encode.1 = .error error) ∧ part = [] ∨
            reply.encode.1 = .ok () ∧ (∃ rest, rest ≠ [] ∧ reply.encode.2 = part ++ rest) ∧
              ∃ e ∈ behind, e.2.IsLostWrite) ∧
      (∀ before e after, behind = before ++ e :: after → e.2.IsFailure →
        ∀ x ∈ after, ¬ x.2.IsWork) ∧
      ∀ peer, c.client.subject = .plain peer →
        ((c.shakeHands s).1 = .ok () ↔
          ∃ ms, peer.conduct = .succeeds ms ∧ ms ≤ s.settings.handshakeTimeout) ∧
        ∃ m, c'.timeline.events = c.timeline.events ++
          (c.timeline.now, .wire .handshake) :: behind ++ [(m, .wire .shut)] := by
  obtain ⟨last, behind, rfl, hclosed, hlater, hcourse, hleaves, herror, hlast⟩ := course_run h
  have hover := isOver_of_closed hclosed
  have hevents := hlater.events hover
  refine ⟨last, behind, _, rfl, hevents, rfl, hcourse.frame, herror, hleaves, hcourse.output,
    fun before e after hes he => hcourse.order hes he, fun peer hpeer => ?_⟩
  obtain ⟨hshaken, peer', hpeer'⟩ := later_shakeHands (s := s) hpeer
  have hp : ∃ p, (c.shakeHands s).2.client.subject.peer? = some p := by
    rw [hpeer']
    exact ⟨peer', rfl⟩
  have hshut : (close last).2.timeline.events =
      last.timeline.events ++ [(last.timeline.now, .wire .shut)] :=
    (Client.later_close (hlast hp)).timeline.events (close_eq_closed_iff.mp hclosed)
  refine ⟨shakeHands_eq_ok_iff hpeer, last.timeline.now, ?_⟩
  rw [hshut, hevents, hshaken.events (hlater.isOver hover)]
  simp only [List.append_assoc, List.cons_append, List.nil_append]

/-- A client that breaks off in the middle of the second reply. -/
theorem run_course_broken :
    let s : Service := { pipeline := fun n => if n = 0 then ⟨[.echo 0]⟩ else ⟨[.notFound]⟩ }
    let client : Timed Client := ⟨.plain
      { script := [.data (Utf8.encode ("GET /a HTTP/1.1\r\nConnection: keep-alive\r\n\r\n".toList ++
          "GET /b HTTP/1.1\n\n".toList))]
        ending := .silent, intake := .ofBounds { failAfter := some 126 } }, {}⟩
    ∃ c' m behind first second part,
      run s (ofClient s.settings TokenParser.mk client) = (.closed, c') ∧
      c'.timeline.events = (0, .wire .handshake) :: behind ++ [(m, .wire .shut)] ∧
      (∀ e ∈ behind, ¬ e.2.IsFrame) ∧
      (contextsIn behind).filterMap Context.reply? = [first, second] ∧
      octetsIn behind = first.encode.2 ++ part ∧ part = Utf8.encode "HTTP/1.1 404 Not".toList ∧
      second.encode.1 = .ok () ∧ (∃ rest, rest ≠ [] ∧ second.encode.2 = part ++ rest) ∧
      ∃ e ∈ behind, e.2.IsLostWrite := by
  intro s client
  let c₁ := ((ofClient s.settings TokenParser.mk client).shakeHands s).2
  let c₂ := (c₁.exchange s none).2
  let c₃ := (c₂.exchange s none).2
  let error : ServeError := .response (.io { message := "write failed".toList })
  have hfirst : c₁.exchange s none = (.handled true, c₂) := Prod.ext (by decide +kernel) rfl
  have hsecond : c₂.exchange s none = (.failed error, c₃) := Prod.ext (by decide +kernel) rfl
  have hopen₁ : c₁.timeline.isOver = false ∧ c₁.client.subject.isConnected = true := by
    decide +kernel
  have hopen₂ : c₂.timeline.isOver = false ∧ c₂.client.subject.isConnected = true := by
    decide +kernel
  have hserve : run s (ofClient s.settings TokenParser.mk client) =
      close (c₃.notify (.exchangeFailed error)) := by
    rw [run_eq_serve rfl, serve_of_turn (turn?_of_handled hopen₁.1 hopen₁.2 hfirst), serve_eq,
      hopen₂.1, hopen₂.2]
    rw [show exchange s ((Stage.kept 0).idleTimeout s.settings) _ = (.failed error, c₃)
      from hsecond]
    rfl
  let events := (close (c₃.notify (.exchangeFailed error))).2.timeline.events
  let reply := "HTTP/1.1 200 OK\r\ncontent-type: application/octet-stream\r\n".toList ++
    "content-length: 8\r\nconnection: keep-alive\r\n\r\nGET /a \n".toList
  let reply' := "HTTP/1.1 404 Not Found\r\ncontent-type: text/plain; charset=utf-8\r\n".toList ++
    "content-length: 17\r\nconnection: close\r\n\r\nno resource at /b".toList
  have hcontexts : ((contextsIn events).filterMap Context.reply?).map (·.encode.2) =
      [Utf8.encode reply, Utf8.encode reply'] := by decide +kernel
  have haccepted : octetsIn events = Utf8.encode reply ++
      Utf8.encode "HTTP/1.1 404 Not".toList := by decide +kernel
  have hrun : run s (ofClient s.settings TokenParser.mk client) = (.closed, _) :=
    hserve.trans (Prod.ext (by decide +kernel) rfl)
  obtain ⟨last, behind, remote, -, -, -, hframe, -, -, houtput, -, hplain⟩ := run_course hrun
  obtain ⟨-, m, hevents⟩ := hplain _ rfl
  obtain ⟨sent, cut, part, hreplies, hoctets, -, hnone, hcut⟩ := houtput
  -- The handshake and the close leave no context and no octet.
  have hsplit : events = ((0, .wire .handshake) :: behind) ++ [(m, .wire .shut)] := hevents
  rw [hsplit, contextsIn_append] at hcontexts
  rw [hsplit, octetsIn_append] at haccepted
  replace hcontexts : ((contextsIn behind ++ []).filterMap Context.reply?).map
    (fun r : Reply => r.encode.2) = [Utf8.encode reply, Utf8.encode reply'] := hcontexts
  replace haccepted : octetsIn behind ++ [] = _ := haccepted
  rw [List.append_nil] at hcontexts haccepted
  obtain ⟨first, tail, htwo, hreply, htail⟩ := List.map_eq_cons_iff.mp hcontexts
  obtain ⟨second, tail', rfl, hreply', hnil⟩ := List.map_eq_cons_iff.mp htail
  obtain rfl := List.map_eq_nil_iff.mp hnil
  rw [htwo] at hreplies
  cases cut with
  | none =>
    obtain rfl : [first, second] = sent := hreplies.trans (List.append_nil sent)
    rw [hnone rfl, List.append_nil, haccepted, List.flatMap_cons, List.flatMap_singleton, hreply,
      hreply'] at hoctets
    exact absurd (List.append_cancel_left hoctets) (by decide +kernel)
  | some third =>
    have hends : [first] ++ [second] = sent ++ [third] := hreplies
    obtain ⟨rfl, hthird⟩ := List.append_inj' hends rfl
    obtain rfl := (List.cons.inj hthird).1
    rw [List.flatMap_singleton, hreply] at hoctets
    have hpart : part = Utf8.encode "HTTP/1.1 404 Not".toList :=
      List.append_cancel_left (hoctets.symm.trans haccepted)
    rcases hcut _ rfl with ⟨-, hempty⟩ | ⟨hencode, hrest, hlost⟩
    · rw [hempty] at hpart
      exact absurd hpart (by decide)
    · rw [← hreply] at hoctets
      exact ⟨_, m, behind, first, second, part, hrun, hsplit, hframe, htwo, hoctets, hpart, hencode,
        hrest, hlost⟩

end HttpWire.Connection
