import HttpWire.Proofs.Connection.Retries
import HttpWire.Proofs.Reading.Yielding
import HttpWire.Proofs.Wire.Schedule

/-!
# What the idle timeout limits

The limit on waiting for the next request of a kept connection holds for all of receiving it.  So
the next message is answered if its last octet arrives in time (`Serving.exchange_inTime`), and
otherwise the exchange is given up at the limit (`Serving.exchange_late`), however early the message
has begun.

As long as octets are left, the loop over exchanges has answered all the messages in front of them
(`serving_of_reaches`).  So `run_nextMessage` can say for every exchange of a run with a limit what
becomes of the message that it waits for.  In `run_gives_up_begun` that is given up although it
begins in time.
-/

namespace HttpWire

open FaithfulResolver (Faithful)

namespace Client

variable {start : Timeline} {remote : Option Address} {seen : List Sight} {due : Nat → Nat}
  {d k : Nat}

/-- By schedule, all octets are yielded that arrive before the deadline. -/
theorem yields_onSchedule (hdue : due k ≤ d) : Yields (OnSchedule start remote seen due d) k := by
  intro n c h hn hlt
  rcases h.read (List.ne_nil_of_length_pos (Nat.zero_lt_of_lt hlt)) hn with
    hread | ⟨c', -, -, -, hlate⟩
  · exact hread
  · have hnext := h.due_le hlt
    omega

/-- By schedule, a source is stopped at the deadline before octets that arrive later. -/
theorem stopsBefore_onSchedule (hdue : d < due k) :
    StopsBefore (OnSchedule start remote seen due d)
      (fun e c => e = .interrupted .timedOut ∧ Since start remote seen c ∧ c.timeline.now = d)
      k := by
  have hupcoming {c : Timed Client} (h : OnSchedule start remote seen due d c) :
      k < c.subject.upcoming.length := by
    refine Nat.lt_of_not_le fun hle => ?_
    have harrived := h.arrived k hle
    have hnow := h.inTime
    omega
  refine ⟨hupcoming, fun {n c} h hn => ?_⟩
  have hne : c.subject.upcoming ≠ [] :=
    List.ne_nil_of_length_pos (Nat.zero_lt_of_lt (hupcoming h))
  exact (h.read hne hn).imp_right fun ⟨c', hread, hsince, hnow, _⟩ =>
    ⟨_, c', hread, rfl, hsince, hnow⟩

end Client

namespace Connection

variable {υ : Type}

/-- The moment at which the first `n` octets that are pending have arrived, if a steady client is
waited for. -/
def arrival (n : Nat) (c : Connection υ) : Nat :=
  c.timeline.now + c.client.subject.delay (n - c.reader.buffer.length)

variable [VersionResolver υ] [FaithfulResolver υ] {s : Service} {c : Connection υ}
  {start : Timeline} {remote : Option Address} {count : Nat} {seen : List Sight} {rest : Bytes}
  {limit : Nat} {x : Execution}

namespace Serving

/-! ### Receiving -/

/-- While the next message is waited for, its client is read by schedule. -/
theorem onSchedule_beginExchange (limit : Nat) (h : Serving start remote count seen rest c)
    (hrest : rest ≠ []) :
    Client.OnSchedule start remote seen (Client.schedule c.client) (c.timeline.now + limit)
      (c.beginExchange s (some limit)).client :=
  Client.onSchedule (c := (c.beginExchange s (some limit)).client)
    ⟨h.client.peer, h.client.remote,
      h.client.adds.trans_nil (Timeline.adds_under h.cancelAt h.horizon _)⟩
    (h.steady (h.atEnd_eq_false hrest)) rfl (Nat.le_add_right ..)

/-- The last octet of what is pending in front of others arrives when only those are to come. -/
theorem arrival_eq {ahead : Bytes} (h : Serving start remote count seen (ahead ++ rest) c)
    (hne : ahead ++ rest ≠ []) :
    c.arrival ahead.length = Client.schedule c.client rest.length := by
  have hpending := h.pending
  rw [BufferedReader.pending, h.atEnd_eq_false hne] at hpending
  have hlength := congrArg List.length hpending
  simp only [Bool.false_eq_true, if_false, List.length_append] at hlength
  change _ + c.client.subject.upcoming.length = _ at hlength
  rw [arrival, Client.schedule]
  congr 2
  omega

/-! ### Exchanges -/

/-- **The next message is answered if it has arrived by the limit.** -/
theorem exchange_inTime (m : Message) (h : Serving start remote count seen (m.octets ++ rest) c)
    (hx : x = (s.pipeline count).executionOf remote (m.request s.settings.allowTrailers))
    (ha : x.Answers) (hin : c.arrival m.octets.length ≤ c.timeline.now + limit) :
    ∃ c', c.exchange s (some limit) = (.handled (decide x.context.StaysOpen), c') ∧
      Serving start remote (count + 1) (seen ++ x.sights) rest c' := by
  have hne := List.append_ne_nil_of_left_ne_nil m.octets_ne_nil rest
  have hbegin := h.onSchedule_beginExchange (s := s) limit hne
  rw [h.arrival_eq hne] at hin
  obtain ⟨versions', r', hreceive, hv, h'⟩ := BufferedReader.receive_ahead m
    s.settings.allowTrailers h.faithful (Client.yields_onSchedule hin)
    (r := (c.beginExchange s (some limit)).reader) ⟨h.atEnd_eq_false hne, hbegin, h.pending⟩
  have hreceived : Serving start remote count seen rest
      { c.beginExchange s (some limit) with versions := versions', reader := r' } :=
    { handled := h.handled
      faithful := hv
      client := h'.source.since
      steady := fun _ => h'.source.steady
      drained := fun hend => absurd h'.atEnd (ne_false_of_eq_true hend)
      pending := h'.pending }
  subst hx
  obtain ⟨c', hhandle, hserving⟩ := (hreceived.onTimeline_nil (f := (·.under {}))
    (Timeline.adds_under hreceived.cancelAt hreceived.horizon {})).handle ha
  refine ⟨c', ?_, hserving⟩
  rw [exchange_of_received h.cancelAt hreceive, h.handled]
  exact hhandle

/-- **The wait for a message that arrives later than the limit is given up** at the limit, and
nothing is seen of it. -/
theorem exchange_late (m : Message) (h : Serving start remote count seen (m.octets ++ rest) c)
    (hlate : c.timeline.now + limit < c.arrival m.octets.length) :
    ∃ c', c.exchange s (some limit) = (.idle, c') ∧ Client.Since start remote seen c'.client ∧
      c'.timeline.now = c.timeline.now + limit := by
  have hne := List.append_ne_nil_of_left_ne_nil m.octets_ne_nil rest
  have hbegin := h.onSchedule_beginExchange (s := s) limit hne
  rw [h.arrival_eq hne] at hlate
  obtain ⟨f', hflat, hleaves⟩ := m.receive_eq s.settings.allowTrailers h.faithful
    (f := c.reader.flatten) h.pending
  obtain ⟨_, versions', r', hreceive, rfl, hsince, hnow⟩ := BufferedReader.receive_stopped
    (Client.stopsBefore_onSchedule hlate) (r := (c.beginExchange s (some limit)).reader)
    (h.atEnd_eq_false hne) hbegin hflat (Nat.le_of_eq (congrArg List.length hleaves.1))
  exact ⟨_, exchange_of_stopped h.cancelAt hreceive, ⟨hsince.peer, hsince.remote,
    hsince.adds.trans_nil (Timeline.adds_under hsince.adds.cancelAt' hsince.adds.horizon' {})⟩,
    hnow⟩

/-! ### The loop -/

theorem serve_inTime (empty : UInt32) (m : Message) (hidle : s.settings.idleTimeout = some limit)
    (h : Serving start remote count seen (m.octets ++ rest) c)
    (hx : x = (s.pipeline count).executionOf remote (m.request s.settings.allowTrailers))
    (ha : x.Answers) (hin : c.arrival m.octets.length ≤ c.timeline.now + limit) :
    ∃ c', Serving start remote (count + 1) (seen ++ x.sights) rest c' ∧
      serve s (.kept empty) c = if x.context.StaysOpen then serve s (.kept 0) c' else c'.close := by
  have hconnected := h.isConnected (List.append_ne_nil_of_left_ne_nil m.octets_ne_nil rest)
  obtain ⟨c', hexchange, h'⟩ := h.exchange_inTime m hx ha hin
  refine ⟨c', h', ?_⟩
  rw [serve_eq, h.isOver, hconnected, show Stage.idleTimeout _ (.kept empty) = _ from hidle,
    hexchange]
  by_cases hopen : x.context.StaysOpen
  · rw [if_pos hopen, decide_eq_true hopen]
    rfl
  · rw [if_neg hopen, decide_eq_false hopen]
    rfl

theorem serve_late (empty : UInt32) (m : Message) (hidle : s.settings.idleTimeout = some limit)
    (h : Serving start remote count seen (m.octets ++ rest) c)
    (hlate : c.timeline.now + limit < c.arrival m.octets.length) :
    ∃ c', serve s (.kept empty) c = (.closed, c') ∧ start.Adds c'.timeline (seen ++ [.shut]) ∧
      c'.timeline.now = c.timeline.now + limit := by
  have hconnected := h.isConnected (List.append_ne_nil_of_left_ne_nil m.octets_ne_nil rest)
  obtain ⟨c₁, hexchange, hsince, hnow⟩ := h.exchange_late (s := s) m hlate
  obtain ⟨c', hclose, hadds, hnow'⟩ := close_of_since hsince
  refine ⟨c', ?_, hadds, hnow'.trans hnow⟩
  rw [serve_eq, h.isOver, hconnected, show Stage.idleTimeout _ (.kept empty) = _ from hidle,
    hexchange]
  exact hclose

/-! ### Runs -/

/-- An exchange answers the next message, or gives it up. -/
theorem exchange_cases (m : Message) (idleTimeout : Option Nat)
    (h : Serving start remote count seen (m.octets ++ rest) c)
    (hx : x = (s.pipeline count).executionOf remote (m.request s.settings.allowTrailers))
    (ha : x.Answers) :
    ∃ c', (c.exchange s idleTimeout = (.handled (decide x.context.StaysOpen), c') ∧
        Serving start remote (count + 1) (seen ++ x.sights) rest c') ∨
      c.exchange s idleTimeout = (.idle, c') := by
  cases idleTimeout with
  | none =>
    obtain ⟨c', hexchange⟩ := h.exchange_message m hx ha
    exact ⟨c', .inl hexchange⟩
  | some limit =>
    by_cases hin : c.arrival m.octets.length ≤ c.timeline.now + limit
    · obtain ⟨c', hexchange⟩ := h.exchange_inTime m hx ha hin
      exact ⟨c', .inl hexchange⟩
    · obtain ⟨c', hexchange, -⟩ := h.exchange_late (s := s) m (Nat.not_le.mp hin)
      exact ⟨c', .inr hexchange⟩

/-- The loop goes on behind a message only if the message has been answered. -/
theorem serving_of_turn {stage stage' : Stage} {c' : Connection υ} (m : Message)
    (h : Serving start remote count seen (m.octets ++ rest) c)
    (hx : x = (s.pipeline count).executionOf remote (m.request s.settings.allowTrailers))
    (ha : x.Answers) (hturn : turn? s stage c = some (stage', c')) :
    Serving start remote (count + 1) (seen ++ x.sights) rest c' := by
  obtain ⟨c₁, ⟨hanswered, hserving⟩ | hidle⟩ :=
    h.exchange_cases m (stage.idleTimeout s.settings) hx ha
  · rcases turn_cases hturn with ⟨hx, -⟩ | ⟨c₂, hx, -⟩
    · rw [hanswered] at hx
      obtain rfl := (Prod.mk.inj hx).2
      exact hserving
    · rw [hanswered] at hx
      cases hx
  · rcases turn_cases hturn with ⟨hx, -⟩ | ⟨c₂, hx, -⟩
    · rw [hidle] at hx
      cases hx
    · rw [hidle] at hx
      cases hx

end Serving

omit [FaithfulResolver υ] in
/-- The loop gives no octets back. -/
theorem pending_of_reaches {x y : Stage × Connection υ} (h : Reaches s x y) :
    y.2.reader.pending.length ≤ x.2.reader.pending.length := by
  induction h with
  | refl => exact Nat.le_refl _
  | @tail y z _ hturn ih =>
    obtain ⟨received, versions, hflat⟩ := receive_flatten_of_turn hturn
    have hle := remaining_receive_le s.settings.allowTrailers y.2.versions y.2.reader.flatten
    rw [hflat] at hle
    exact Nat.le_trans hle ih

/-- **As long as octets are left, the loop has answered the messages in front of them.** -/
theorem serving_of_reaches {messages : List Message} {stage stage' : Stage} {c' : Connection υ}
    (h : Serving start remote count seen (messages.flatMap Message.octets) c)
    (ha : ∀ x ∈ s.executions remote count (messages.map (·.request s.settings.allowTrailers)),
      x.Answers)
    (hreach : Reaches s (stage, c) (stage', c')) (hmore : c'.reader.pending ≠ []) :
    ∃ served left, messages = served ++ left ∧
      Serving start remote (count + served.length)
        (seen ++ (s.executions remote count
          (served.map (·.request s.settings.allowTrailers))).flatMap Execution.sights)
        (left.flatMap Message.octets) c' := by
  generalize hx : (stage, c) = x at hreach
  induction hreach using Relation.ReflTransGen.head_induction_on
    generalizing stage c messages count seen with
  | refl =>
    cases hx
    refine ⟨[], messages, rfl, ?_⟩
    rwa [List.map_nil, Service.executions, List.flatMap_nil, List.append_nil]
  | @head x y hturn hrest ih =>
    cases hx
    cases messages with
    | nil =>
      -- Behind the last message there are no octets.
      have hle := pending_of_reaches (.head hturn hrest)
      rw [show c.reader.pending = [] from h.pending] at hle
      exact absurd (List.length_eq_zero_iff.mp (Nat.le_zero.mp hle)) hmore
    | cons m messages =>
      rw [List.flatMap_cons] at h
      rw [List.map_cons, Service.executions] at ha
      obtain ⟨hfirst, ha⟩ := List.forall_mem_cons.mp ha
      obtain ⟨stage₁, c₁⟩ := y
      obtain ⟨served, left, rfl, hserving⟩ := ih (h.serving_of_turn m rfl hfirst hturn) ha rfl
      refine ⟨m :: served, left, rfl, ?_⟩
      rwa [List.map_cons, Service.executions, List.flatMap_cons, ← List.append_assoc,
        List.length_cons, Nat.add_comm served.length, ← Nat.add_assoc]

/-- **A limit on idle connections is a limit on the arrival of the whole next message.**  Let the
hands of a client have been shaken that sends messages in a row with any pauses, and accepts all
that is sent to it, and let its connection be kept and wait for one of the messages, no longer than
`limit`.  If the last octet of the message arrives in time, the run answers the request that it
means and goes on behind it.  Otherwise the run ends with closing the client when the limit is over,
and nothing is seen of the message, whenever its first octet arrives. -/
theorem run_nextMessage {versions : υ} {client client' : Timed Client} {empty : UInt32}
    (messages : List Message) (hv : Faithful versions) (hidle : s.settings.idleTimeout = some limit)
    (hshake : (ofClient s.settings versions client).shakeHands s =
      (.ok (), ofClient s.settings versions client'))
    (hready : Client.IsReady client')
    (hsent : client'.subject.upcoming = messages.flatMap Message.octets)
    (ha : ∀ requests, List.Forall₂ (Message.Means · s.settings.allowTrailers) messages requests →
      ∀ x ∈ s.executions client'.subject.remote 0 requests, x.Answers)
    (hreach : Reaches s (.fresh, ofClient s.settings versions client') (.kept empty, c))
    (hmore : c.reader.pending ≠ []) :
    ∃ served m left requests q x, messages = served ++ m :: left ∧
      c.reader.pending = m.octets ++ left.flatMap Message.octets ∧
      List.Forall₂ (Message.Means · s.settings.allowTrailers) served requests ∧
      c.timeline.sights = client'.timeline.sights ++
        (s.executions client'.subject.remote 0 requests).flatMap Execution.sights ∧
      m.Means s.settings.allowTrailers q ∧
      x = (s.pipeline requests.length).executionOf client'.subject.remote q ∧
      (c.arrival m.octets.length ≤ c.timeline.now + limit →
        ∃ c', c'.timeline.sights = c.timeline.sights ++ x.sights ∧
          c'.reader.pending = left.flatMap Message.octets ∧
          run s (ofClient s.settings versions client) =
            if x.context.StaysOpen then serve s (.kept 0) c' else c'.close) ∧
      (c.timeline.now + limit < c.arrival m.octets.length →
        ∃ c', run s (ofClient s.settings versions client) = (.closed, c') ∧
          c'.timeline.sights = c.timeline.sights ++ [.shut] ∧
          c'.timeline.now = c.timeline.now + limit) := by
  have hserving := serving_ofClient s.settings hv hready
  rw [hsent] at hserving
  have ha' := ha _ (Message.forall₂_means_iff.mpr rfl)
  obtain ⟨served, left, rfl, h⟩ := serving_of_reaches hserving ha' hreach hmore
  rw [Nat.zero_add] at h
  have hrun : run s (ofClient s.settings versions client) = serve s (.kept empty) c := by
    rw [run, hshake]
    exact serve_of_reaches hreach
  cases left with
  | nil => exact absurd h.pending hmore
  | cons m left =>
    rw [List.flatMap_cons] at h
    rw [List.map_append, Service.executions_append, List.map_cons, Service.executions,
      Nat.zero_add] at ha'
    have hm := ha' _ (List.mem_append_right _ List.mem_cons_self)
    rw [List.length_map] at hm
    have hseen : c.timeline.sights = client'.timeline.sights ++
        (s.executions client'.subject.remote 0
          (served.map (·.request s.settings.allowTrailers))).flatMap Execution.sights :=
      h.client.adds.sights
    refine ⟨served, m, left, _, _, _, rfl, h.pending, Message.forall₂_means_iff.mpr rfl, hseen,
      Message.means_iff.mpr rfl, congrArg (fun n => (s.pipeline n).executionOf _ _)
        (List.length_map _).symm, fun hin => ?_, fun hlate => ?_⟩
    · obtain ⟨c', h', hserve⟩ := h.serve_inTime empty m hidle rfl hm hin
      refine ⟨c', ?_, h'.pending, hrun.trans hserve⟩
      rw [hseen, List.append_assoc]
      exact h'.client.adds.sights
    · obtain ⟨c', hserve, hadds, hnow⟩ := h.serve_late empty m hidle hlate
      refine ⟨c', hrun.trans hserve, ?_, hnow⟩
      rw [hseen, List.append_assoc]
      exact hadds.sights

/-! ### A message in two pieces -/

theorem override_nil :
    ∀ t, HeaderLine.first? .methodOverride [] = some t → isToken t = true := by
  intro t h
  cases h

theorem announces_nil : Announces [] 0 :=
  rfl

theorem unlisted_nil :
    ¬ (HeaderLine.headers []).Lists .transferEncoding "chunked".toList := by
  decide

/-- The request for the root without header lines. -/
def bareRequest : Message :=
  getRoot [] [] override_nil announces_nil unlisted_nil

/-- The octets of `bareRequest`, with a pause in front of the empty line. -/
def bareInPieces (ms : Nat) : List Arrival :=
  [.pause 10, .data (Utf8.encode "GET / HTTP/1.1\r\n".toList), .pause ms,
    .data (Utf8.encode "\r\n".toList)]

/-- A connection that waits for `bareRequest`, and to which nothing else is sent. -/
structure WaitsForBare (ms : Nat) (c : Connection TokenParser) : Prop where
  client : ∃ writes accepted flushes,
    c.client.subject = .plain { script := bareInPieces ms, writes, accepted, flushes }
  buffer : c.reader.buffer = []
  atEnd : c.reader.atEnd = false
  cancelAt : c.timeline.cancelAt = none
  horizon : c.timeline.horizon = none

namespace WaitsForBare

variable {ms : Nat} {c : Connection TokenParser}

theorem serving (h : WaitsForBare ms c) :
    Serving c.timeline none c.handled [] (bareRequest.octets ++ []) c := by
  obtain ⟨writes, accepted, flushes, hclient⟩ := h.client
  have hsteady : Peer.IsSteady { script := bareInPieces ms, writes, accepted, flushes } :=
    ⟨by simp [bareInPieces], nofun, rfl⟩
  refine ⟨rfl, trivial, ⟨⟨_, by rw [hclient]; rfl, Intake.acceptsAll_default⟩, by rw [hclient]; rfl,
    Timeline.adds_refl h.cancelAt h.horizon⟩, fun _ => ⟨_, by rw [hclient]; rfl, hsteady⟩,
    fun hend => absurd h.atEnd (ne_false_of_eq_true hend), ?_⟩
  rw [BufferedReader.pending, h.buffer, h.atEnd]
  show c.client.subject.upcoming = _
  rw [hclient]
  rfl

/-- The first octet arrives behind the first pause. -/
theorem arrival_one (h : WaitsForBare ms c) : c.arrival 1 = c.timeline.now + 10 := by
  obtain ⟨writes, accepted, flushes, hclient⟩ := h.client
  rw [arrival, h.buffer, hclient]
  rfl

/-- The last octet arrives behind both pauses. -/
theorem arrival_length (h : WaitsForBare ms c) :
    c.arrival bareRequest.octets.length = c.timeline.now + (10 + ms) := by
  obtain ⟨writes, accepted, flushes, hclient⟩ := h.client
  rw [arrival, h.buffer, hclient]
  rfl

end WaitsForBare

/-- The loop waits for `bareRequest` behind `keptRequest`. -/
theorem reaches_waitsForBare (ms : Nat) :
    ∃ c, Reaches briefly (.fresh, ((afterKept (bareInPieces ms)).shakeHands briefly).2)
      (.kept 0, c) ∧ WaitsForBare ms c := by
  obtain ⟨c, writes, accepted, flushes, hreach, hclient, hbuffer, hend, hcancel, hhorizon⟩ :=
    reaches_afterKept (bareInPieces ms)
  exact ⟨c, hreach, ⟨writes, accepted, flushes, hclient⟩, hbuffer, hend, hcancel, hhorizon⟩

theorem eq_bareRequest {served left : List Message} {m : Message}
    (h : [keptRequest, bareRequest] = served ++ m :: left)
    (hpending : bareRequest.octets = m.octets ++ left.flatMap Message.octets) :
    served = [keptRequest] ∧ m = bareRequest ∧ left = [] := by
  cases served with
  | nil =>
    cases h
    have hlength := congrArg List.length hpending
    simp only [List.flatMap_cons, List.flatMap_nil, List.length_append, List.length_nil] at hlength
    have hpos := List.length_pos_iff.mpr keptRequest.octets_ne_nil
    omega
  | cons first served =>
    cases served with
    | nil =>
      cases h
      exact ⟨rfl, rfl, rfl⟩
    | cons second served =>
      obtain ⟨-, h⟩ := List.cons.inj h
      obtain ⟨-, h⟩ := List.cons.inj h
      cases served <;> cases h

/-- The second request is answered behind a short pause, but not behind a long one. -/
theorem run_nextMessage_inPieces :
    let request (headers : Headers) : Request :=
      { method := ⟨"GET".toList, by decide⟩, path := "/".toList, query := {}, headers
        protocol := "HTTP/1.1".toList, version := ⟨1, 1⟩, body := .empty }
    let kept : List Sight := .handed (request ⟨[⟨.connection,
        .ofVisible "keep-alive".toList (by decide)⟩]⟩) :: (Utf8.encode
      ("HTTP/1.1 404 Not Found\r\ncontent-type: text/plain; charset=utf-8\r\n".toList ++
        "content-length: 16\r\nconnection: keep-alive\r\n\r\nno resource at /".toList)).map
      .accepted
    let last : List Sight := .handed (request {}) :: (Utf8.encode
      ("HTTP/1.1 404 Not Found\r\ncontent-type: text/plain; charset=utf-8\r\n".toList ++
        "content-length: 16\r\nconnection: close\r\n\r\nno resource at /".toList)).map .accepted
    (∃ c' : Connection TokenParser, run briefly (afterKept (bareInPieces 40)) = c'.close ∧
      c'.timeline.sights = kept ++ last) ∧
    ∃ c' : Connection TokenParser, run briefly (afterKept (bareInPieces 41)) = (.closed, c') ∧
      c'.timeline.sights = kept ++ [.shut] := by
  intro request kept last
  let client (ms : Nat) : Timed Client :=
    ⟨.plain { script := .data keptRequest.octets :: bareInPieces ms }, Timeline.wire {} .handshake⟩
  have hready (ms : Nat) : Client.IsReady (client ms) :=
    ⟨⟨_, rfl, ⟨by simp [bareInPieces], nofun, rfl⟩, Intake.acceptsAll_default⟩, rfl, rfl⟩
  have hshake (ms : Nat) : (afterKept (bareInPieces ms)).shakeHands briefly =
      (.ok (), ofClient briefly.settings TokenParser.mk (client ms)) := rfl
  have hnext (ms : Nat) {c : Connection TokenParser}
      (hreach : Reaches briefly
        (.fresh, ofClient briefly.settings TokenParser.mk (client ms)) (.kept 0, c)) :=
    run_nextMessage [keptRequest, bareRequest] (show Faithful TokenParser.mk from trivial)
      (show briefly.settings.idleTimeout = some 50 from rfl) (hshake ms) (hready ms) rfl
      (fun _ _ _ => Service.answers_of_mem_executions fun _ => Pipeline.answers_notFound none)
      hreach
  -- What has been seen when the second request is waited for.
  have hseen {requests : List Request} (ms : Nat)
      (hmeans : List.Forall₂ (Message.Means · briefly.settings.allowTrailers) [keptRequest]
        requests) :
      (client ms).timeline.sights ++
        (briefly.executions (client ms).subject.remote 0 requests).flatMap Execution.sights =
      kept := by
    rw [Message.forall₂_means_iff.mp hmeans]
    show [] ++ (briefly.executions none 0 [keptRequest.request true]).flatMap Execution.sights = _
    decide +kernel
  constructor
  · obtain ⟨c, hreach, hwaits⟩ := reaches_waitsForBare 40
    have hpending := hwaits.serving.pending.trans (List.append_nil _)
    obtain ⟨served, m, left, requests, q, x, hmessages, hfirst, hmeans, hsights, hq, hx, hin, -⟩ :=
      hnext 40 hreach (hpending ▸ bareRequest.octets_ne_nil)
    obtain ⟨rfl, rfl, rfl⟩ := eq_bareRequest hmessages (hpending.symm.trans hfirst)
    obtain ⟨c', hsights', -, hrun⟩ := hin (Nat.le_of_eq hwaits.arrival_length)
    rw [Message.means_iff.mp hq] at hx
    obtain rfl : x = (briefly.pipeline 0).executionOf none (bareRequest.request true) := hx
    have hclose : ¬ ((briefly.pipeline 0).executionOf none
        (bareRequest.request true)).context.StaysOpen := by decide +kernel
    have hlast : ((briefly.pipeline 0).executionOf none (bareRequest.request true)).sights =
        last := by decide +kernel
    rw [if_neg hclose] at hrun
    exact ⟨c', hrun, by rw [hsights', hsights, hseen 40 hmeans, hlast]⟩
  · obtain ⟨c, hreach, hwaits⟩ := reaches_waitsForBare 41
    have hpending := hwaits.serving.pending.trans (List.append_nil _)
    obtain ⟨served, m, left, requests, -, -, hmessages, hfirst, hmeans, hsights, -, -, -, hlate⟩ :=
      hnext 41 hreach (hpending ▸ bareRequest.octets_ne_nil)
    obtain ⟨rfl, rfl, rfl⟩ := eq_bareRequest hmessages (hpending.symm.trans hfirst)
    obtain ⟨c', hrun, hsights', -⟩ := hlate (by
      rw [hwaits.arrival_length]
      exact Nat.lt_succ_self _)
    exact ⟨c', hrun, by rw [hsights', hsights, hseen 41 hmeans]⟩

/-- **A request that begins in time may be given up.**  The connection waits no longer than 50 ms
for the second request, which begins behind 10 ms; but its last octets come behind 110 ms, and the
client is shut behind 50 ms, without having been answered. -/
theorem run_gives_up_begun :
    let client := afterKept (bareInPieces 100)
    ∃ c c', Reaches briefly (.fresh, (client.shakeHands briefly).2) (.kept 0, c) ∧
      c.reader.pending = bareRequest.octets ∧
      c.arrival 1 = c.timeline.now + 10 ∧
      run briefly client = (.closed, c') ∧
      c.timeline.Adds c'.timeline [.shut] ∧ c'.timeline.now = c.timeline.now + 50 := by
  intro client
  obtain ⟨c, hreach, hwaits⟩ := reaches_waitsForBare 100
  have hserving := hwaits.serving
  have hlate : c.timeline.now + 50 < c.arrival bareRequest.octets.length := by
    rw [hwaits.arrival_length]
    omega
  obtain ⟨c', hserve, hadds, hnow⟩ := hserving.serve_late (s := briefly) 0 bareRequest rfl hlate
  refine ⟨c, c', hreach, hserving.pending.trans (List.append_nil _), hwaits.arrival_one, ?_, hadds,
    hnow⟩
  rw [run_eq_serve rfl, serve_of_reaches hreach]
  exact hserve

end Connection

end HttpWire
