import HttpWire.Proofs.Connection.Answering
import HttpWire.Proofs.Message.Framing
import HttpWire.Proofs.Steps

/-!
# Pipelined messages are served one after the other

A client may send messages in a row without waiting for answers.  An exchange takes the first of
them, answers it, and leaves the others (`Serving.exchange_message`); when all have been taken, the
looks for more find nothing (`Serving.serve_nothing`).  So a whole run hands the requests to the
pipeline in their order, through the first behind which the connection does not go on, sends the
answers in the same order, and shuts the client once (`run_messages`).

The invariant is `Serving`.  A connection with octets left to read is connected, because a steady
client is there until the read that finds the end.
-/

namespace HttpWire

open FaithfulResolver (Faithful)

theorem Message.octets_ne_nil (m : Message) : m.octets ≠ [] := by
  intro h
  have hline : m.line.octets = [] := by
    simp only [octets, List.append_eq_nil_iff] at h
    exact h.1.1.2
  exact m.line.octets_ne_nil hline

/-- At the end of the octets there is no request. -/
theorem FlatReader.receive_eq_nothing {υ : Type} [VersionResolver υ] (allowTrailers : Bool)
    (versions : υ) {f : FlatReader} (hf : f.rest = []) :
    ∃ f', receive allowTrailers versions f = (.ok (.nothing .endOfInput), versions, f') ∧
      f'.rest = [] := by
  have hline : ByteReader.readLine f = (.ok none, { f with rest := [], lastTaken := 0 }) := by
    show FlatReader.readLine f = _
    rw [FlatReader.readLine, hf]
    rfl
  refine ⟨{ f with rest := [], lastTaken := 0 }, ?_, rfl⟩
  rw [receive, firstLine_eq, hline]

namespace Connection

variable {υ : Type} [VersionResolver υ] [FaithfulResolver υ]

/-- Without a limit on idle connections there is none at any stage. -/
theorem Stage.idleTimeout_eq_none {settings : ConnectionSettings}
    (h : settings.idleTimeout = none) (stage : Stage) : stage.idleTimeout settings = none := by
  cases stage with
  | fresh => rfl
  | kept empty => exact h

omit [VersionResolver υ] [FaithfulResolver υ] in
/-- A client that is closed is shut at once, whether or not it reports an error of that. -/
theorem close_of_since {start : Timeline} {remote : Option Address} {seen : List Sight}
    {c : Connection υ} (h : Client.Since start remote seen c.client) :
    ∃ c', c.close = (.closed, c') ∧ start.Adds c'.timeline (seen ++ [.shut]) ∧
      c'.timeline.now = c.timeline.now := by
  obtain ⟨p, hp, -⟩ := h.peer
  have hshut : c.timeline.Adds (c.timeline.record (.wire .shut)) [.shut] :=
    Timeline.adds_record h.adds.cancelAt' h.adds.horizon' (.wire .shut)
  have htimeline : (Client.close c.client).2.timeline = c.timeline.record (.wire .shut) := by
    rw [Client.close_eq hp, Peer.close]
    cases p.intake.onClose <;> rfl
  have hnow : (Client.close c.client).2.timeline.now = c.timeline.now := by
    rw [htimeline, Timeline.now_record]
  rw [← htimeline] at hshut
  have hadds := h.adds.trans hshut
  refine ⟨c.withClient (Client.close c.client).2, ?_, hadds, hnow⟩
  have hover : (c.withClient (Client.close c.client).2).timeline.isOver = false := hadds.isOver
  rw [Connection.close]
  simp only [hover, Bool.false_eq_true, if_false]

namespace Serving

variable {start : Timeline} {remote : Option Address} {count : Nat} {seen : List Sight}
  {rest : Bytes} {c : Connection υ} {s : Service}

/-! ### Receiving -/

/-- The regime in which the reader is, once no deadline is set. -/
theorem under (h : Serving start remote count seen rest c)
    (hd : c.timeline.limits.deadline = none) :
    c.reader.Under (Client.steady start remote seen) := by
  unfold BufferedReader.Under
  cases hend : c.reader.atEnd with
  | true => exact h.client
  | false => exact ⟨h.client, hd, h.steady hend⟩

theorem beginExchange (h : Serving start remote count seen rest c) :
    Serving start remote count seen rest (c.beginExchange s none) := by
  have h' : Serving start remote count seen rest { c with exchanges := c.exchanges + 1 } := { h with }
  exact h'.onTimeline_nil (Timeline.adds_under h.cancelAt h.horizon _)

/-- What the flat reader receives an exchange receives. -/
theorem receiveRequest {received : Received} {versions' : υ} {f' : FlatReader}
    (h : Serving start remote count seen rest c)
    (hflat : receive s.settings.allowTrailers c.versions c.reader.flatten =
      (.ok received, versions', f'))
    (hv : Faithful versions') :
    ∃ c', (c.beginExchange s none).receiveRequest s = (.ok received, c') ∧
      Serving start remote count seen f'.rest c' := by
  have hbegin := h.beginExchange (s := s)
  obtain ⟨r', hreceive, hunder, hdrained, hf'⟩ := BufferedReader.exists_receive_eq_under id
    (hbegin.under rfl) hbegin.drained hflat
  have hclient : Client.Since start remote seen r'.source := by
    unfold BufferedReader.Under at hunder
    split at hunder
    · exact hunder
    · exact hunder.1
  -- The regime of the reader afterwards gives the invariant back, end or no end.
  have hserving : Serving start remote count seen f'.rest
      { c.beginExchange s none with versions := versions', reader := r' } :=
    { handled := h.handled
      faithful := hv
      client := hclient
      steady := fun hend => by
        have hopen : (Client.steady start remote seen).isOpen r'.source := by
          simpa only [BufferedReader.Under, show r'.atEnd = false from hend, Bool.false_eq_true,
            if_false] using hunder
        exact hopen.2.2
      drained := hdrained
      pending := congrArg FlatReader.rest hf' }
  refine ⟨_, ?_, hserving.onTimeline_nil (f := (·.under {}))
    (Timeline.adds_under hserving.cancelAt hserving.horizon {})⟩
  rw [Connection.receiveRequest]
  rw [show receive s.settings.allowTrailers (c.beginExchange s none).versions
    (c.beginExchange s none).reader = _ from hreceive]

theorem isCancelledFirst (h : Serving start remote count seen rest c) :
    (c.beginExchange s none).isCancelledFirst = false := by
  have hcancel : (c.beginExchange s none).timeline.isCancelled = false :=
    h.beginExchange.client.adds.isCancelled
  rw [Connection.isCancelledFirst, hcancel]
  exact Bool.and_false _

/-! ### Exchanges -/

/-- An exchange serves a request that the flat reader receives. -/
theorem exchange_request {q : Request} {versions' : υ} {f' : FlatReader}
    (h : Serving start remote count seen rest c)
    (hflat : receive s.settings.allowTrailers c.versions c.reader.flatten =
      (.ok (.request q), versions', f'))
    (hv : Faithful versions') {x : Execution} (hx : x = (s.pipeline count).executionOf remote q)
    (ha : x.Answers) :
    ∃ c', c.exchange s none = (.handled (decide x.context.StaysOpen), c') ∧
      Serving start remote (count + 1) (seen ++ x.sights) f'.rest c' := by
  subst hx
  obtain ⟨c₁, hreceive, h₁⟩ := h.receiveRequest hflat hv
  obtain ⟨c₂, hhandle, h₂⟩ := h₁.handle ha
  refine ⟨c₂, ?_, h₂⟩
  rw [Connection.exchange]
  simp only [h.isCancelledFirst, Bool.false_eq_true, if_false, hreceive, h₁.handled, hhandle]

/-- An exchange finds no request where the flat reader finds none. -/
theorem exchange_absent {why : Absence} {versions' : υ} {f' : FlatReader}
    (h : Serving start remote count seen rest c)
    (hflat : receive s.settings.allowTrailers c.versions c.reader.flatten =
      (.ok (.nothing why), versions', f'))
    (hv : Faithful versions') :
    ∃ c', c.exchange s none = (.noRequest, c') ∧ Serving start remote count seen f'.rest c' := by
  obtain ⟨c₁, hreceive, h₁⟩ := h.receiveRequest hflat hv
  have h₂ : Serving start remote count seen f'.rest (why.notice?.elim c₁ c₁.notify) := by
    cases why.notice? with
    | none => exact h₁
    | some n =>
      exact h₁.onTimeline_nil (f := (·.record (.notice n)))
        (Timeline.adds_record h₁.cancelAt h₁.horizon (.notice n))
  refine ⟨_, ?_, h₂⟩
  rw [Connection.exchange]
  simp only [h.isCancelledFirst, Bool.false_eq_true, if_false, hreceive]

/-- **An exchange serves the next message** and leaves those behind it. -/
theorem exchange_message (m : Message) (h : Serving start remote count seen (m.octets ++ rest) c)
    {x : Execution}
    (hx : x = (s.pipeline count).executionOf remote (m.request s.settings.allowTrailers))
    (ha : x.Answers) :
    ∃ c', c.exchange s none = (.handled (decide x.context.StaysOpen), c') ∧
      Serving start remote (count + 1) (seen ++ x.sights) rest c' := by
  obtain ⟨f', hflat, hleaves⟩ := m.receive_eq s.settings.allowTrailers h.faithful
    (f := c.reader.flatten) h.pending
  rw [← hleaves.1]
  exact h.exchange_request hflat (FaithfulResolver.faithful_resolve _ h.faithful) hx ha

/-- An exchange behind the last message finds no request. -/
theorem exchange_nothing (h : Serving start remote count seen [] c) :
    ∃ c', c.exchange s none = (.noRequest, c') ∧ Serving start remote count seen [] c' := by
  obtain ⟨f', hflat, hrest⟩ := FlatReader.receive_eq_nothing s.settings.allowTrailers c.versions
    (f := c.reader.flatten) h.pending
  rw [← hrest]
  exact h.exchange_absent hflat h.faithful

/-! ### Runs -/

theorem isOver (h : Serving start remote count seen rest c) : c.timeline.isOver = false :=
  h.client.adds.isOver

/-- The client is shut, whether or not it reports an error of that. -/
theorem close (h : Serving start remote count seen rest c) :
    ∃ c', c.close = (.closed, c') ∧ start.Adds c'.timeline (seen ++ [.shut]) := by
  obtain ⟨c', hclose, hadds, -⟩ := close_of_since h.client
  exact ⟨c', hclose, hadds⟩

/-- A connection with octets left to read has not met their end. -/
theorem atEnd_eq_false (h : Serving start remote count seen rest c) (hrest : rest ≠ []) :
    c.reader.atEnd = false := by
  cases hend : c.reader.atEnd with
  | false => rfl
  | true =>
    have hpending := h.pending
    rw [BufferedReader.pending, h.drained hend, hend] at hpending
    exact absurd hpending.symm hrest

/-- A connection with octets left to read is connected. -/
theorem isConnected (h : Serving start remote count seen rest c) (hrest : rest ≠ []) :
    c.client.subject.isConnected = true := by
  obtain ⟨p, hp, hsteady⟩ := h.steady (h.atEnd_eq_false hrest)
  rw [Client.isConnected_eq hp]
  exact hsteady.connected

/-- When there is nothing left to read, the connection ends after some looks. -/
theorem serve_nothing (hidle : s.settings.idleTimeout = none) (stage : Stage)
    (h : Serving start remote count seen [] c) :
    ∃ c', serve s stage c = (.closed, c') ∧ start.Adds c'.timeline (seen ++ [.shut]) := by
  -- Every look that finds nothing leaves one less.
  induction hn : stage.looksLeft s.settings using Nat.strongRecOn generalizing stage c with
  | ind n ih =>
    rw [serve_eq, h.isOver, if_neg Bool.false_ne_true]
    by_cases hconnected : c.client.subject.isConnected = true
    · obtain ⟨c₁, hexchange, h₁⟩ := h.exchange_nothing (s := s)
      rw [hconnected, stage.idleTimeout_eq_none hidle, hexchange]
      cases hlook : stage.lookAgain? s.settings with
      | none => exact h₁.close
      | some stage' =>
        have h₂ := h₁.onTimeline_nil (f := (·.pass s.settings.backoff))
          (Timeline.adds_pass h₁.cancelAt h₁.horizon _)
        exact ih _ (hn ▸ Stage.looksLeft_lookAgain hlook) stage' h₂ rfl
    · rw [Bool.not_eq_true] at hconnected
      rw [hconnected]
      exact h.close

/-- The messages of a row are served in their order, through the first behind which the connection
does not go on. -/
theorem serve_messages (hidle : s.settings.idleTimeout = none) (messages : List Message)
    (stage : Stage) (h : Serving start remote count seen (messages.flatMap Message.octets) c)
    {served : List Execution}
    (hserved : served = Execution.through (s.executions remote count
      (messages.map (·.request s.settings.allowTrailers))))
    (ha : ∀ x ∈ served, x.Answers) :
    ∃ c', serve s stage c = (.closed, c') ∧
      start.Adds c'.timeline (seen ++ served.flatMap Execution.sights ++ [.shut]) := by
  induction messages generalizing count seen stage c served with
  | nil =>
    obtain rfl : served = [] := hserved
    rw [List.flatMap_nil, List.append_nil]
    exact h.serve_nothing hidle stage
  | cons m messages ih =>
    rw [List.flatMap_cons] at h
    have hconnected : c.client.subject.isConnected = true := by
      apply h.isConnected
      rw [Ne, List.append_eq_nil_iff, not_and]
      intro hm
      exact absurd hm m.octets_ne_nil
    rw [List.map_cons, Service.executions, Execution.through] at hserved
    generalize hx : (s.pipeline count).executionOf remote (m.request s.settings.allowTrailers) = x
      at hserved
    -- The first request is served in any case, so it is among those that are answered.
    have hfirst : x.Answers := by
      apply ha
      rw [hserved]
      split
      · exact List.mem_cons_self ..
      · exact List.mem_singleton_self _
    obtain ⟨c₁, hexchange, h₁⟩ := h.exchange_message m hx.symm hfirst
    rw [serve_eq, h.isOver, if_neg Bool.false_ne_true, hconnected, stage.idleTimeout_eq_none hidle,
      hexchange]
    -- Either it is the last one that is served, or the rest is served behind it.
    by_cases hopen : x.context.StaysOpen
    · rw [if_pos hopen] at hserved
      subst hserved
      rw [decide_eq_true hopen, List.flatMap_cons, ← List.append_assoc]
      exact ih (.kept 0) h₁ rfl fun y hy => ha y (List.mem_cons_of_mem _ hy)
    · rw [if_neg hopen] at hserved
      subst hserved
      rw [decide_eq_false hopen, List.flatMap_singleton]
      exact h₁.close

end Serving

/-! ### The whole run -/

/-- A connection with a client that is ready is served, with nothing seen so far. -/
theorem serving_ofClient {versions : υ} {client : Timed Client} (settings : ConnectionSettings)
    (hv : Faithful versions) (hready : Client.IsReady client) :
    Serving client.timeline client.subject.remote 0 [] client.subject.upcoming
      (ofClient settings versions client) := by
  obtain ⟨p, hp, hsteady, hall⟩ := hready.peer
  exact
    { handled := rfl
      faithful := hv
      client := ⟨⟨p, hp, hall⟩, rfl, Timeline.adds_refl hready.cancelAt hready.horizon⟩
      steady := fun _ => ⟨p, hp, hsteady⟩
      drained := fun _ => rfl
      pending := rfl }

theorem filterMap_request?_sights (xs : List Execution) :
    (xs.flatMap Execution.sights).filterMap Sight.request? = xs.map (·.request) := by
  induction xs with
  | nil => rfl
  | cons x xs ih =>
    rw [List.flatMap_cons, List.filterMap_append, ih]
    show x.request :: (x.context.octets.map Sight.accepted).filterMap Sight.request? ++ _ = _
    rw [Sight.filterMap_request?_accepted, List.singleton_append, List.map_cons]

theorem filterMap_octet?_sights (xs : List Execution) :
    (xs.flatMap Execution.sights).filterMap Sight.octet? = xs.flatMap (·.context.octets) := by
  induction xs with
  | nil => rfl
  | cons x xs ih =>
    rw [List.flatMap_cons, List.filterMap_append, ih, List.flatMap_cons]
    show (x.context.octets.map Sight.accepted).filterMap Sight.octet? ++ _ = _
    rw [Sight.filterMap_octet?_accepted]

/-- **Pipelined messages are served one after the other.**  When the hands of a client have been
shaken that sends messages in a row with any pauses, and accepts all that is sent to it, then the
run hands the requests that the messages mean to the pipeline in their order, through the first
behind which the connection does not go on.  The client accepts the answer to each of them before
the next is handed, and nothing else, and is shut once, at the end. -/
theorem run_messages {s : Service} {versions : υ} {client client' : Timed Client}
    (messages : List Message) (hv : Faithful versions) (hidle : s.settings.idleTimeout = none)
    (hshake : (ofClient s.settings versions client).shakeHands s =
      (.ok (), ofClient s.settings versions client'))
    (hready : Client.IsReady client')
    (hsent : client'.subject.upcoming = messages.flatMap Message.octets)
    (ha : ∀ requests, List.Forall₂ (Message.Means · s.settings.allowTrailers) messages requests →
      ∀ x ∈ s.served client'.subject.remote requests, x.Answers) :
    ∃ c' requests served, run s (ofClient s.settings versions client) = (.closed, c') ∧
      List.Forall₂ (Message.Means · s.settings.allowTrailers) messages requests ∧
      served = s.served client'.subject.remote requests ∧
      c'.timeline.handed = client'.timeline.handed ++ served.map (·.request) ∧
      c'.timeline.written = client'.timeline.written ++ served.flatMap (·.context.octets) ∧
      c'.timeline.sights = client'.timeline.sights ++ served.flatMap Execution.sights ++
        [.shut] := by
  have hmeans := Message.forall₂_means_iff.mpr
    (show messages.map (·.request s.settings.allowTrailers) = _ from rfl)
  have hserving := serving_ofClient s.settings hv hready
  rw [hsent] at hserving
  obtain ⟨c', hserve, hadds⟩ := hserving.serve_messages hidle messages .fresh rfl (ha _ hmeans)
  have hsights := hadds.sights
  rw [List.nil_append, ← List.append_assoc] at hsights
  refine ⟨c', _, _, ?_, hmeans, rfl, ?_, ?_, hsights⟩
  · rw [run, hshake]
    exact hserve
  · rw [Timeline.handed, hsights, List.filterMap_append, List.filterMap_append,
      filterMap_request?_sights]
    exact List.append_nil _
  · rw [Timeline.written, hsights, List.filterMap_append, List.filterMap_append,
      filterMap_octet?_sights]
    exact List.append_nil _

/-- A form whose method is overridden, a body in chunks with a trailer that is kept, and a request
that does not ask for the connection to be kept, in front of one that is not served, from a client
that accepts three octets at a time. -/
theorem run_messages_echo :
    let s : Service := { pipeline := fun _ => ⟨[.echo 0]⟩ }
    let client : Timed Client := ⟨.plain
      { script := [.data (Utf8.encode ("\r\nPOST /f?a=%20&b HTTP/1.1\r\nConnection: Keep-A".toList ++
            "live\r\nContent-Length: 2\n_method: put\r\n\r\nhiPOST".toList)), .pause 7,
          .data (Utf8.encode (" /g HTTP/1.1\r\nconnection: x, keep-alive\r\nTransfer-E".toList ++
            "ncoding: chunked\nTE: trailers\n\n1;x\r\na\r\n2\nbc\n0\r\nTE: y\r\n".toList)),
          .data (Utf8.encode "\r\n\nGET /b HTTP/1.0\n\nGET /b HTTP/1.0\n\n".toList)]
        ending := .gone, intake := .ofBounds { perWrite := some 3 } }, {}⟩
    ∃ c', run s (ofClient s.settings TokenParser.mk client) = (.closed, c') ∧
      c'.timeline.handed =
        [{ method := ⟨"PUT".toList, by decide⟩, path := "/f".toList
           query := ⟨[("a".toList, " ".toList), ("b".toList, [])]⟩
           headers := ⟨[⟨.connection, .ofVisible "Keep-Alive".toList (by decide)⟩,
             ⟨.contentLength, .ofVisible "2".toList (by decide)⟩,
             ⟨.methodOverride, .ofVisible "put".toList (by decide)⟩]⟩
           protocol := "HTTP/1.1".toList, version := ⟨1, 1⟩
           body := .form (Utf8.encode "hi".toList) },
         { method := ⟨"POST".toList, by decide⟩, path := "/g".toList, query := {}
           headers := ⟨[⟨.connection, .ofVisible "x, keep-alive".toList (by decide)⟩,
             ⟨.transferEncoding, .ofVisible "chunked".toList (by decide)⟩,
             ⟨.te, .ofVisible "trailers".toList (by decide)⟩,
             ⟨.te, .ofVisible "y".toList (by decide)⟩]⟩
           protocol := "HTTP/1.1".toList, version := ⟨1, 1⟩
           body := .form (Utf8.encode "abc".toList) },
         { method := ⟨"GET".toList, by decide⟩, path := "/b".toList, query := {}, headers := {}
           protocol := "HTTP/1.0".toList, version := ⟨1, 0⟩, body := .empty }] ∧
      c'.timeline.written = Utf8.encode
        ("HTTP/1.1 200 OK\r\ncontent-type: application/octet-stream\r\n".toList ++
          "content-length: 16\r\nconnection: keep-alive\r\n\r\nPUT /f a=+&b=\nhi".toList ++
          "HTTP/1.1 200 OK\r\ncontent-type: application/octet-stream\r\n".toList ++
          "content-length: 12\r\nconnection: keep-alive\r\n\r\nPOST /g \nabc".toList ++
          "HTTP/1.0 200 OK\r\ncontent-type: application/octet-stream\r\n".toList ++
          "content-length: 8\r\nconnection: close\r\n\r\nGET /b \n".toList) := by
  intro s client
  let m₁ : Message :=
    { blanks := [.crlf], method := ⟨"POST".toList, by decide⟩
      target := "/f?a=%20&b".toList, target_plain := by decide, target_trimmed := by decide
      protocol := "HTTP/1.1".toList, version := ⟨1, 1⟩, accepted := rfl
      ending := .crlf, blockEnding := .crlf
      lines := [.spaced .connection "Connection".toList "Keep-Alive".toList .crlf (by decide)
          (by decide) (by decide),
        .spaced .contentLength "Content-Length".toList "2".toList .lf (by decide) (by decide)
          (by decide),
        .spaced .methodOverride "_method".toList "put".toList .crlf (by decide) (by decide)
          (by decide)]
      override := by decide
      content := .octets (Utf8.encode "hi".toList) (by decide)
        ⟨Text.toNat?_eq_some_iff.mp (by decide), by decide⟩ }
  let m₂ : Message :=
    { blanks := [], method := ⟨"POST".toList, by decide⟩
      target := "/g".toList, target_plain := by decide, target_trimmed := by decide
      protocol := "HTTP/1.1".toList, version := ⟨1, 1⟩, accepted := rfl
      ending := .crlf, blockEnding := .lf
      lines := [.spaced .connection "connection".toList "x, keep-alive".toList .crlf (by decide)
          (by decide) (by decide),
        .spaced .transferEncoding "Transfer-Encoding".toList "chunked".toList .lf (by decide)
          (by decide) (by decide),
        .spaced .te "TE".toList "trailers".toList .lf (by decide) (by decide) (by decide)]
      override := by decide
      content := .chunked _ _ _ chunkedCoding_abc rfl (by decide) }
  let m₃ (blanks : List LineEnd) : Message :=
    { blanks, method := ⟨"GET".toList, by decide⟩
      target := "/b".toList, target_plain := by decide, target_trimmed := by decide
      protocol := "HTTP/1.0".toList, version := ⟨1, 0⟩, accepted := rfl
      ending := .lf, lines := [], blockEnding := .lf
      override := by decide
      content := .nothing rfl (by decide) }
  have hready : Client.IsReady ⟨client.subject, Timeline.wire {} .handshake⟩ :=
    { peer := ⟨_, rfl, ⟨by simp, nofun, rfl⟩, Intake.acceptsAll_ofBounds (by decide)⟩
      cancelAt := rfl
      horizon := rfl }
  obtain ⟨c', requests, served, hrun, hmeans, hserved, hhanded, hwritten, -⟩ := run_messages
    (s := s) [m₁, m₂, m₃ [.lf], m₃ []] (show Faithful TokenParser.mk from trivial) rfl
    (show (ofClient s.settings TokenParser.mk client).shakeHands s = _ from rfl) hready
    (by decide +kernel)
    fun _ _ _ hx => Service.answers_of_mem_executions (fun _ => Pipeline.answers_echo 0 none)
      (Service.mem_of_mem_served hx)
  rw [hserved, Message.forall₂_means_iff.mp hmeans] at hhanded hwritten
  exact ⟨c', hrun, hhanded.trans (by decide +kernel), hwritten.trans (by decide +kernel)⟩

end Connection

end HttpWire
