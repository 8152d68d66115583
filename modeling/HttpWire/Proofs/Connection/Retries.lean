import HttpWire.Proofs.Connection.Pipelining
import HttpWire.Proofs.Connection.Progress
import HttpWire.Proofs.Connection.Refusal
import HttpWire.Proofs.Connection.Shutdown

/-!
# How long a connection goes on

With a client that lets no read wait for ever, the loop over exchanges ends.  Each exchange takes
octets, of which there are finitely many, or it uses up one of the looks that may come up empty in a
row; `exchangesLeft` counts both together, and every turn of the loop lowers it.  The retry counter
is the number of looks since the last request that was handled (`looks_of_reaches`), so it is
bounded by the settings and starts anew with each request.

Behind the end of the stream the looks that are left make no reads, and only their pauses pass
(`events_goOn`).  `run_terminates` puts this together for a run from the handshake to the close.

With a limit on waiting, there is one thing more that an exchange may do: give up and take nothing
(`exchange_of_lateStart`).
-/

namespace HttpWire.Connection

variable {υ : Type} [VersionResolver υ] {s : Service} {stage stage' : Stage}
  {c c' c₀ : Connection υ}

/-! ### Turns -/

/-- Looks that found no request on a kept connection, each with the pause behind it. -/
inductive Looks (s : Service) (c : Connection υ) : Nat → Connection υ → Prop
  | none : Looks s c 0 c
  | more {n c₁ c₂} (h : Looks s c n c₁)
    (hx : c₁.exchange s s.settings.idleTimeout = (.noRequest, c₂)) :
    Looks s c (n + 1) (c₂.onTimeline (·.pass s.settings.backoff))

omit [VersionResolver υ] in
theorem lookAgain_kept {settings : ConnectionSettings} {empty : UInt32}
    (h : (Stage.kept empty).lookAgain? settings = some stage') :
    stage' = .kept (empty + 1) ∧ empty < settings.retries ∧
      (empty + 1).toNat = empty.toNat + 1 := by
  simp only [Stage.lookAgain?, Option.ite_none_right_eq_some, Option.some.injEq] at h
  obtain ⟨hlt, rfl⟩ := h
  refine ⟨rfl, hlt, ?_⟩
  have hlt := UInt32.lt_iff_toNat_lt.mp hlt
  have := settings.retries.toNat_lt
  simp only [UInt32.toNat_add, UInt32.reduceToNat]
  omega

/-- **The retry counter counts the looks since the last request.**  A connection that is fresh has
gone on behind no exchange.  One that is kept has handled a request, and has found none since then
in as many looks as its counter says, which are no more than the settings allow. -/
theorem looks_of_reaches (h : Reaches s (.fresh, c₀) (stage, c)) :
    (stage = .fresh ∧ c = c₀) ∨
    ∃ stage₀ c₁ c₂ empty, Reaches s (.fresh, c₀) (stage₀, c₁) ∧
      c₁.exchange s (stage₀.idleTimeout s.settings) = (.handled true, c₂) ∧
      stage = .kept empty ∧ Looks s c₂ empty.toNat c ∧
      empty.toNat ≤ s.settings.retries.toNat := by
  generalize hx : (stage, c) = x at h
  induction h generalizing stage c with
  | refl =>
    cases hx
    exact .inl ⟨rfl, rfl⟩
  | @tail y z hreach hturn ih =>
    obtain ⟨stage₁, c₁⟩ := y
    cases hx
    rcases turn_cases hturn with ⟨hhandled, rfl⟩ | ⟨c₂, hnone, hlook, rfl⟩
    · exact .inr ⟨stage₁, c₁, c, 0, hreach, hhandled, rfl, .none, Nat.zero_le _⟩
    · rcases ih rfl with ⟨rfl, -⟩ | ⟨stage₀, b, b', empty, hb, hhandled, rfl, hlooks, -⟩
      · cases hlook
      · obtain ⟨rfl, hlt, hnext⟩ := lookAgain_kept hlook
        refine .inr ⟨stage₀, b, b', empty + 1, hb, hhandled, rfl, ?_, ?_⟩
        · rw [hnext]
          exact hlooks.more hnone
        · rw [hnext]
          exact UInt32.lt_iff_toNat_lt.mp hlt

/-! ### The number of exchanges -/

/-- The exchanges that may be begun at a stage: one for each octet, and behind the last octet one
for each look. -/
def exchangesLeft (s : Service) (stage : Stage) (c : Connection υ) : Nat :=
  if c.reader.pending.isEmpty then stage.looksLeft s.settings + 1
  else c.reader.pending.length + s.settings.retries.toNat + 1

omit [VersionResolver υ] in
theorem looksLeft_le (settings : ConnectionSettings) (stage : Stage) :
    stage.looksLeft settings ≤ settings.retries.toNat := by
  cases stage with
  | fresh => exact Nat.zero_le _
  | kept empty => exact Nat.sub_le ..

omit [VersionResolver υ] in
/-- Octets that were taken leave fewer exchanges. -/
theorem exchangesLeft_lt_of_takes (h : c'.reader.pending.length < c.reader.pending.length) :
    exchangesLeft s stage' c' < exchangesLeft s stage c := by
  have hlooks := looksLeft_le s.settings stage'
  have hne : c.reader.pending.isEmpty = false := by
    rw [List.isEmpty_eq_false_iff, ← List.length_pos_iff]
    omega
  unfold exchangesLeft
  rw [hne]
  cases hend : c'.reader.pending.isEmpty with
  | true =>
    simp only [if_true, Bool.false_eq_true, if_false]
    omega
  | false =>
    simp only [Bool.false_eq_true, if_false]
    omega

omit [VersionResolver υ] in
/-- A look that takes nothing uses up a look. -/
theorem exchangesLeft_lt_of_lookAgain (hpending : c.reader.pending = [])
    (hpending' : c'.reader.pending = []) (h : stage.lookAgain? s.settings = some stage') :
    exchangesLeft s stage' c' < exchangesLeft s stage c := by
  have hlooks := Stage.looksLeft_lookAgain h
  unfold exchangesLeft
  rw [hpending, hpending']
  exact Nat.add_lt_add_right hlooks 1

omit [VersionResolver υ] in
theorem exchangesLeft_pos (s : Service) (stage : Stage) (c : Connection υ) :
    0 < exchangesLeft s stage c := by
  unfold exchangesLeft
  split <;> exact Nat.succ_pos _

/-- Behind an exchange that goes on, fewer exchanges are left. -/
theorem exchangesLeft_lt_of_turn (h : turn? s stage c = some (stage', c')) :
    exchangesLeft s stage' c' < exchangesLeft s stage c := by
  have hgets := gets_on s (stage.idleTimeout s.settings) c
  rcases turn_cases h with ⟨hx, rfl⟩ | ⟨c₁, hx, hlook, rfl⟩
  · rw [hx] at hgets
    generalize ho : Outcome.handled true = outcome at hgets
    cases hgets with
    | takes h => exact exchangesLeft_lt_of_takes h
    | ends | fails => cases ho
    | givesUp cause => cases cause <;> cases ho
  · rw [hx] at hgets
    generalize ho : Outcome.noRequest = outcome at hgets
    cases hgets with
    | takes h => exact exchangesLeft_lt_of_takes h
    | ends hbefore hbuffer hend =>
      refine exchangesLeft_lt_of_lookAgain hbefore ?_ hlook
      show c₁.reader.buffer ++ (if c₁.reader.atEnd then [] else _) = []
      rw [hbuffer, hend]
      rfl
    | fails => cases ho
    | givesUp cause => cases cause <;> cases ho

/-- What the exchanges were and what is left of them does not grow. -/
theorem exchanges_of_reaches {x y : Stage × Connection υ} (h : Reaches s x y) :
    y.2.exchanges + exchangesLeft s y.1 y.2 ≤ x.2.exchanges + exchangesLeft s x.1 x.2 := by
  induction h with
  | refl => exact Nat.le_refl _
  | @tail y z _ hturn ih =>
    have hlt := exchangesLeft_lt_of_turn hturn
    have hcount : z.2.exchanges = y.2.exchanges + 1 := by
      rcases turn_cases hturn with ⟨hx, -⟩ | ⟨c₁, hx, -, hz⟩
      · rw [← exchanges_exchange s (y.1.idleTimeout s.settings) y.2, hx]
      · rw [← exchanges_exchange s (y.1.idleTimeout s.settings) y.2, hx, hz]
        rfl
    omega

/-! ### The end of the loop -/

theorem responsive_of_reaches {x y : Stage × Connection υ} (hquiet : ∀ n, (s.pipeline n).NeverCancels)
    (hx : Client.IsResponsive x.2.client) (h : Reaches s x y) :
    Client.IsResponsive y.2.client := by
  induction h with
  | refl => exact hx
  | @tail y z _ hturn ih =>
    have hexchange := (responsive_exchange hquiet ih (y.1.idleTimeout s.settings)).1
    rcases turn_cases hturn with ⟨heq, -⟩ | ⟨c₁, heq, -, hz⟩
    · rwa [heq] at hexchange
    · rw [heq] at hexchange
      rw [hz]
      exact hexchange.at rfl rfl

/-- How the loop ends, with the connection that is then closed.  There is no pause behind the last
exchange. -/
inductive Finishes (s : Service) (stage : Stage) (c : Connection υ) : Connection υ → Prop
  | disconnected (h : c.client.subject.isConnected = false) : Finishes s stage c c
  | done {last} (h : c.exchange s (stage.idleTimeout s.settings) = (.handled false, last)) :
    Finishes s stage c last
  | noLooksLeft {last} (h : c.exchange s (stage.idleTimeout s.settings) = (.noRequest, last))
    (hlook : stage.lookAgain? s.settings = none) : Finishes s stage c last
  | idle {last} (h : c.exchange s (stage.idleTimeout s.settings) = (.idle, last)) :
    Finishes s stage c last
  | failed {e last} (h : c.exchange s (stage.idleTimeout s.settings) = (.failed e, last)) :
    Finishes s stage c (last.notify (.exchangeFailed e))

/-- The loop ends with at most one more exchange. -/
theorem Finishes.exchanges_le {last : Connection υ} (h : Finishes s stage c last) :
    last.exchanges ≤ c.exchanges + 1 := by
  have hcount := exchanges_exchange s (stage.idleTimeout s.settings) c
  cases h with
  | disconnected _ => exact Nat.le_succ _
  | done h | noLooksLeft h _ | idle h | failed h =>
    rw [h] at hcount
    exact Nat.le_of_eq hcount

theorem Finishes.horizon {last : Connection υ} (h : Finishes s stage c last)
    (hquiet : ∀ n, (s.pipeline n).NeverCancels) (hc : Client.IsResponsive c.client) :
    last.timeline.horizon = none := by
  have hexchange := (responsive_exchange hquiet hc (stage.idleTimeout s.settings)).1.horizon
  cases h with
  | disconnected _ => exact hc.horizon
  | done h | noLooksLeft h _ | idle h =>
    rw [h] at hexchange
    exact hexchange
  | @failed e last h =>
    rw [h] at hexchange
    have hlater := Timeline.later_record last.timeline (.notice (.exchangeFailed e))
    exact hlater.horizon.trans hexchange

/-- The loop comes to an exchange with which it ends. -/
theorem exists_finishes (stage : Stage) (hquiet : ∀ n, (s.pipeline n).NeverCancels)
    (h : Client.IsResponsive c.client) :
    ∃ stage' c' last, Reaches s (stage, c) (stage', c') ∧ Finishes s stage' c' last ∧
      serve s stage c = close last := by
  fun_induction serve s stage c with
  | case1 stage c hover =>
    rw [show c.timeline.isOver = false from h.isOver] at hover
    cases hover
  | case2 stage c hover hconn =>
    exact ⟨stage, c, c, .refl, .disconnected (by simpa using hconn), rfl⟩
  | case3 stage c hover hconn c' hx ih =>
    have hturn := turn?_of_handled h.isOver (by simpa using hconn) hx
    have hexchange := (responsive_exchange hquiet h (stage.idleTimeout s.settings)).1
    rw [hx] at hexchange
    obtain ⟨stage'', c'', last, hreach, hrest⟩ := ih hexchange
    exact ⟨stage'', c'', last, .head hturn hreach, hrest⟩
  | case5 stage c hover hconn c' hx stage' hlook ih =>
    have hturn := turn?_of_noRequest h.isOver (by simpa using hconn) hx hlook
    have hexchange := (responsive_exchange hquiet h (stage.idleTimeout s.settings)).1
    rw [hx] at hexchange
    obtain ⟨stage'', c'', last, hreach, hrest⟩ := ih (hexchange.at rfl rfl)
    exact ⟨stage'', c'', last, .head hturn hreach, hrest⟩
  | case4 stage c hover hconn c' hx => exact ⟨stage, c, c', .refl, .done hx, rfl⟩
  | case6 stage c hover hconn c' hx hlook =>
    exact ⟨stage, c, c', .refl, .noLooksLeft hx hlook, rfl⟩
  | case7 stage c hover hconn c' hx => exact ⟨stage, c, c', .refl, .idle hx, rfl⟩
  | case9 stage c hover hconn e c' hx => exact ⟨stage, c, _, .refl, .failed hx, rfl⟩
  -- A responsive client neither cancels the wait nor lets it go on for ever.
  | case8 stage c hover hconn c' hx =>
    have hcause : Interruption.cancelled = .timedOut :=
      ((responsive_exchange hquiet h (stage.idleTimeout s.settings)).2 (by rw [hx]; rfl)).1
    cases hcause
  | case10 stage c hover hconn c' hx =>
    have hcause : Interruption.stalled = .timedOut :=
      ((responsive_exchange hquiet h (stage.idleTimeout s.settings)).2 (by rw [hx]; rfl)).1
    cases hcause

/-- **The loop closes a responsive client**, within the exchanges that are left to it. -/
theorem closed_serve_of_responsive (stage : Stage) (hquiet : ∀ n, (s.pipeline n).NeverCancels)
    (h : Client.IsResponsive c.client) :
    (serve s stage c).1 = .closed ∧
      (serve s stage c).2.exchanges ≤ c.exchanges + exchangesLeft s stage c := by
  obtain ⟨stage', c', last, hreach, hfinishes, hserve⟩ := exists_finishes stage hquiet h
  have hc' := responsive_of_reaches hquiet h hreach
  have hcount := hfinishes.exchanges_le
  have hleft := exchanges_of_reaches hreach
  have hpos := exchangesLeft_pos s stage' c'
  rw [hserve]
  refine ⟨closed_of_horizon (hfinishes.horizon hquiet hc'), ?_⟩
  show last.exchanges ≤ _
  dsimp only at hleft
  omega

/-! ### A stream that has ended -/

/-- What the loop does behind an exchange that found no request. -/
def goOn (s : Service) (stage : Stage) (c : Connection υ) : Ended × Connection υ :=
  match stage.lookAgain? s.settings with
  | some stage' => serve s stage' (c.onTimeline (·.pass s.settings.backoff))
  | none => close c

theorem serve_of_noRequest (hover : c.timeline.isOver = false)
    (hconn : c.client.subject.isConnected = true)
    (hx : c.exchange s (stage.idleTimeout s.settings) = (.noRequest, c')) :
    serve s stage c = goOn s stage c' := by
  rw [serve_eq, hover, hconn, hx]
  rfl

/-- **Behind the end, the looks that are left take a pause each, and nothing else happens** until
the client is closed. -/
theorem events_goOn {empty : UInt32} (hc : Client.IsResponsive c.client)
    (hconn : c.client.subject.isConnected = true) (hbuffer : c.reader.buffer = [])
    (hend : c.reader.atEnd = true) :
    (goOn s (.kept empty) c).2.timeline.events = c.timeline.events ++
      [(c.timeline.now + (Stage.kept empty).looksLeft s.settings * s.settings.backoff,
        .wire .shut)] := by
  generalize hleft : (Stage.kept empty).looksLeft s.settings = n
  induction n generalizing empty c with
  | zero =>
    have hlook : (Stage.kept empty).lookAgain? s.settings = none := by
      cases hlook : (Stage.kept empty).lookAgain? s.settings with
      | none => rfl
      | some stage' =>
        have hlt := Stage.looksLeft_lookAgain hlook
        omega
    rw [goOn, hlook]
    show (close c).2.timeline.events = _
    rw [events_close hc.exists_peer (closed_of_horizon hc.horizon), Nat.zero_mul, Nat.add_zero]
  | succ n ih =>
    have hlt : empty < s.settings.retries := by
      rw [UInt32.lt_iff_toNat_lt]
      unfold Stage.looksLeft at hleft
      dsimp only at hleft
      omega
    have hlook : (Stage.kept empty).lookAgain? s.settings = some (.kept (empty + 1)) :=
      if_pos hlt
    have hnext := (lookAgain_kept hlook).2.2
    rw [goOn, hlook]
    generalize hpassed : c.onTimeline (·.pass s.settings.backoff) = passed
    have hpassed' : Client.IsResponsive passed.client := by
      rw [← hpassed]
      exact hc.at rfl rfl
    obtain ⟨c', hx, hbuffer', hend', hclient⟩ := exchange_of_drained (c := passed) s
      ((Stage.kept (empty + 1)).idleTimeout s.settings) (by rwa [← hpassed]) (by rwa [← hpassed])
      hpassed'.cancelAt
    have hserve := serve_of_noRequest hpassed'.isOver (by rwa [← hpassed]) hx
    show (serve s (.kept (empty + 1)) passed).2.timeline.events = _
    have hc' : Client.IsResponsive c'.client := by
      rw [hclient]
      exact hpassed'.at rfl rfl
    have hconn' : c'.client.subject.isConnected = true := by
      rw [hclient, ← hpassed]
      exact hconn
    have hleft' : (Stage.kept (empty + 1)).looksLeft s.settings = n := by
      unfold Stage.looksLeft at hleft ⊢
      dsimp only at hleft ⊢
      omega
    have htimeline : c'.timeline = passed.timeline.under {} := congrArg Timed.timeline hclient
    have hmoment : c.timeline.now + s.settings.backoff + n * s.settings.backoff =
        c.timeline.now + (n + 1) * s.settings.backoff := by
      rw [Nat.add_assoc, Nat.succ_mul, Nat.add_comm s.settings.backoff]
    rw [hserve, ih hc' hconn' hbuffer' hend' hleft', htimeline, ← hpassed]
    show _ ++ [(c.timeline.now + s.settings.backoff + n * s.settings.backoff, _)] = _
    rw [hmoment]
    rfl

/-! ### The whole run -/

/-- How serving a responsive client goes, from behind the handshake to the end. -/
structure Terminates (s : Service) (start c' : Connection υ) : Prop where
  /-- There are no more exchanges than octets and looks, and one. -/
  bounded : c'.exchanges ≤ start.exchanges + start.reader.pending.length +
    s.settings.retries.toNat + 1
  /-- Every exchange takes an octet, or meets the end of the stream or an error, or is ended by the
  limit on waiting. -/
  progresses : ∀ {stage c}, Reaches s (.fresh, start) (stage, c) →
    ∀ {outcome c'}, c.exchange s (stage.idleTimeout s.settings) = (outcome, c') →
      c'.reader.pending.length < c.reader.pending.length ∨
        (outcome = .noRequest ∧ c'.reader.atEnd = true) ∨ (∃ e, outcome = .failed e) ∨
        (outcome = .idle ∧ stage.idleTimeout s.settings ≠ none)
  /-- The retry counter is the number of looks, and of pauses, since the last request that was
  handled, which the settings bound. -/
  looks : ∀ {stage c}, Reaches s (.fresh, start) (stage, c) →
    (stage = .fresh ∧ c = start) ∨
    ∃ stage₀ c₁ c₂ empty, Reaches s (.fresh, start) (stage₀, c₁) ∧
      c₁.exchange s (stage₀.idleTimeout s.settings) = (.handled true, c₂) ∧
      stage = .kept empty ∧ Looks s c₂ empty.toNat c ∧
      empty.toNat ≤ s.settings.retries.toNat
  /-- There is no pause behind the last exchange. -/
  finishes : ∃ stage c last, Reaches s (.fresh, start) (stage, c) ∧ Finishes s stage c last ∧
    c' = (close last).2
  /-- If the stream ends right behind a request for which the connection is kept, the look that
  meets the end makes one read at most, and all that happens behind it is that the client is closed,
  as much later as all the pauses take. -/
  drains : ∀ {c c₁}, Reaches s (.fresh, start) (.kept 0, c) → c.reader.pending = [] →
    c.exchange s s.settings.idleTimeout = (.noRequest, c₁) →
    c.client.subject.isConnected = true → c₁.client.subject.isConnected = true →
      c₁.timeline.events = c.timeline.events ++
        (if c.reader.atEnd then [] else [(c₁.timeline.now, .wire (.read 0))]) ∧
      c'.timeline.events = c₁.timeline.events ++
        [(c₁.timeline.now + s.settings.retries.toNat * s.settings.backoff, .wire .shut)]

theorem progresses (hquiet : ∀ n, (s.pipeline n).NeverCancels) (h : Client.IsResponsive c.client)
    {outcome : Outcome} (hx : c.exchange s (stage.idleTimeout s.settings) = (outcome, c')) :
    c'.reader.pending.length < c.reader.pending.length ∨
      (outcome = .noRequest ∧ c'.reader.atEnd = true) ∨ (∃ e, outcome = .failed e) ∨
      (outcome = .idle ∧ stage.idleTimeout s.settings ≠ none) := by
  have hgets := gets_on s (stage.idleTimeout s.settings) c
  obtain ⟨-, hgiven⟩ := responsive_exchange hquiet h (stage.idleTimeout s.settings)
  rw [hx] at hgets hgiven
  cases hgets with
  | takes h => exact .inl h
  | ends _ _ hend => exact .inr (.inl ⟨rfl, hend⟩)
  | fails e => exact .inr (.inr (.inl ⟨e, rfl⟩))
  | givesUp cause =>
    obtain ⟨rfl, hlimit⟩ := hgiven rfl
    exact .inr (.inr (.inr ⟨rfl, hlimit⟩))

/-- Serving a responsive client terminates. -/
theorem terminates_serve {start : Connection υ} (hquiet : ∀ n, (s.pipeline n).NeverCancels)
    (h : Client.IsResponsive start.client) : Terminates s start (serve s .fresh start).2 where
  bounded := by
    have hbounded := (closed_serve_of_responsive .fresh hquiet h).2
    unfold exchangesLeft at hbounded
    split at hbounded
    · next hempty =>
      have hlooks := looksLeft_le s.settings .fresh
      omega
    · omega
  progresses hreach _ _ hx := progresses hquiet (responsive_of_reaches hquiet h hreach) hx
  looks hreach := looks_of_reaches hreach
  finishes := by
    obtain ⟨stage, c, last, hreach, hfinishes, hserve⟩ :=
      exists_finishes .fresh hquiet h
    exact ⟨stage, c, last, hreach, hfinishes, congrArg Prod.snd hserve⟩
  drains := by
    intro c c₁ hreach hpending hx hconn hconn₁
    have hc := responsive_of_reaches hquiet h hreach
    obtain ⟨hbuffer, hend, hevents⟩ := exchange_of_pending hc hpending hx
    have hc₁ := (responsive_exchange hquiet hc s.settings.idleTimeout).1
    rw [hx] at hc₁
    have hserve : serve s .fresh start = goOn s (.kept 0) c₁ :=
      (serve_of_reaches hreach).trans (serve_of_noRequest hc.isOver hconn hx)
    refine ⟨hevents, ?_⟩
    rw [hserve]
    exact events_goOn hc₁ hconn₁ hbuffer hend

/-- **A connection with a responsive client terminates.**  Whatever the client sends, however it
paces that and whether it goes away, ends the stream or fails, the connection is closed.  If the
client does not shake hands, there is no exchange; otherwise there are no more exchanges than octets
and looks, and one, and each of them gets on (`Terminates`). -/
theorem run_terminates {versions : υ} {client : Timed Client}
    (hquiet : ∀ n, (s.pipeline n).NeverCancels)
    (hhorizon : ((ofClient s.settings versions client).shakeHands s).2.timeline.horizon = none)
    (hresponsive : ((ofClient s.settings versions client).shakeHands s).1 = .ok () →
      Client.IsResponsive ((ofClient s.settings versions client).shakeHands s).2.client) :
    let c := ofClient s.settings versions client
    (run s c).1 = .closed ∧
      ((c.shakeHands s).1 ≠ .ok () → (run s c).2.exchanges = 0) ∧
      ((c.shakeHands s).1 = .ok () →
        (run s c).2.exchanges ≤ (c.shakeHands s).2.client.subject.upcoming.length +
            s.settings.retries.toNat + 1 ∧
          Terminates s (c.shakeHands s).2 (run s c).2) := by
  intro c
  have hcount : (c.shakeHands s).2.exchanges = 0 := rfl
  have hpending : (c.shakeHands s).2.reader.pending =
      (c.shakeHands s).2.client.subject.upcoming := rfl
  by_cases hshake : (c.shakeHands s).1 = .ok ()
  · have hstart := hresponsive hshake
    have hterminates := terminates_serve hquiet hstart
    rw [run_eq_serve hshake]
    refine ⟨(closed_serve_of_responsive .fresh hquiet hstart).1, fun h => absurd hshake h, fun _ =>
      ⟨?_, hterminates⟩⟩
    have hbounded := hterminates.bounded
    rwa [hcount, Nat.zero_add, hpending] at hbounded
  · have hnotify (shaken : Connection υ) (hshaken : shaken.timeline.horizon = none)
        (error : ServeError) : (close (shaken.notify (.handshakeFailed error))).1 = .closed :=
      closed_of_horizon ((Timeline.later_record shaken.timeline _).horizon.trans hshaken)
    have hfailed : (run s c).1 = .closed ∧
        (run s c).2.exchanges = (c.shakeHands s).2.exchanges := by
      unfold run
      change (c.shakeHands s).2.timeline.horizon = none at hhorizon
      generalize c.shakeHands s = x at hshake hhorizon
      obtain ⟨result, shaken⟩ := x
      rcases result with (e | cause) | _
      · exact ⟨hnotify shaken hhorizon _, rfl⟩
      · exact ⟨hnotify shaken hhorizon _, rfl⟩
      · exact absurd rfl hshake
    exact ⟨hfailed.1, fun _ => hfailed.2.trans hcount, fun h => absurd h hshake⟩

/-- Two requests, with a pause within the second, and then the end of the stream. -/
theorem run_terminates_twoRequests :
    let s : Service := { pipeline := fun _ => ⟨[.notFound]⟩ }
    let client : Timed Client := ⟨.plain
      { script := [.data (Utf8.encode "GET /a HTTP/1.1\r\nConnection: keep-alive\r\n\r\nGET".toList),
          .pause 7, .data (Utf8.encode " /b HTTP/1.1\r\nConnection: keep-alive\r\n\r\n".toList)] }, {}⟩
    let c := ofClient s.settings TokenParser.mk client
    (∀ n, (s.pipeline n).NeverCancels) ∧ (c.shakeHands s).1 = .ok () ∧ (run s c).1 = .closed ∧
      Terminates s (c.shakeHands s).2 (run s c).2 := by
  intro s client c
  have hquiet : ∀ n, (s.pipeline n).NeverCancels := fun _ _ _ => List.not_mem_nil
  have hresponsive : Client.IsResponsive (c.shakeHands s).2.client :=
    ⟨⟨_, rfl, Peer.IsSteady.isResponsive ⟨by simp, nofun, rfl⟩⟩, rfl, rfl⟩
  obtain ⟨hclosed, -, hserved⟩ := @run_terminates _ _ s TokenParser.mk client hquiet rfl fun _ =>
    hresponsive
  exact ⟨hquiet, rfl, hclosed, (hserved rfl).2⟩

/-! ### A request that is followed by others -/

/-- If the octets of `keptRequest` arrive at once, it is received by one read. -/
theorem receive_keptRequest {r : BufferedReader (Timed Client)} {rest : List Arrival} {t : Timeline}
    (hr : r = .ofSource ⟨.plain { script := .data keptRequest.octets :: rest }, t⟩ 2048) :
    receive true TokenParser.mk r =
      (.ok (.request (keptRequest.request true)), TokenParser.mk, { r with
        source := ⟨.plain { script := rest }, t.wire (.read 42)⟩, lastTaken := 2 }) := by
  -- The reader behind each of the three lines.
  obtain ⟨r₁, hr₁⟩ : ∃ r₁ : BufferedReader (Timed Client), r₁ = { r with
    source := ⟨.plain { script := rest }, t.wire (.read 42)⟩
    buffer := Utf8.encode "Connection: keep-alive\r\n\r\n".toList, lastTaken := 16 } := ⟨_, rfl⟩
  obtain ⟨r₂, hr₂⟩ : ∃ r₂ : BufferedReader (Timed Client), r₂ = { r₁ with
    buffer := Utf8.encode "\r\n".toList, lastTaken := 24 } := ⟨_, rfl⟩
  obtain ⟨r₃, hr₃⟩ : ∃ r₃ : BufferedReader (Timed Client), r₃ = { r₂ with
    buffer := [], lastTaken := 2 } := ⟨_, rfl⟩
  have hline : ByteReader.readLine r = (.ok (some "GET / HTTP/1.1".toList), r₁) := by
    rw [hr₁, hr]
    exact (BufferedReader.takeLine_eq _ _).trans (BufferedReader.takeLine_eq _ _)
  have hfield : ByteReader.readLine r₁ = (.ok (some "Connection: keep-alive".toList), r₂) := by
    rw [hr₂, hr₁, hr]
    exact BufferedReader.takeLine_eq _ _
  have hempty : ByteReader.readLine r₂ = (.ok (some []), r₃) := by
    rw [hr₃, hr₂, hr₁, hr]
    exact BufferedReader.takeLine_eq _ _
  have hfirst : firstLine r = (.ok (some "GET / HTTP/1.1".toList), r₁) := by
    rw [firstLine_eq, hline]
    rfl
  have hlast : Headers.readBlock 24 (keptRequest.request true).headers r₂ =
      (.ok (24 + r₃.lastTaken), (keptRequest.request true).headers, r₃) := by
    rw [Headers.readBlock_eq, hempty]
    rfl
  have hblock : Headers.readBlock 0 {} r₁ =
      (.ok (24 + r₃.lastTaken), (keptRequest.request true).headers, r₃) := by
    rw [Headers.readBlock_eq, hfield, ← hlast, hr₂]
    rfl
  have hend : r₃ = { r with
      source := ⟨.plain { script := rest }, t.wire (.read 42)⟩, lastTaken := 2 } := by
    rw [hr₃, hr₂, hr₁, hr]
    rfl
  rw [← hend, receive, hfirst]
  show (let x := receiveBehind true ⟨"GET".toList, "/".toList, "HTTP/1.1".toList⟩ ⟨1, 1⟩ r₁
    (x.1, TokenParser.mk, x.2)) = _
  rw [receiveBehind, hblock]
  rfl

/-- A server that waits 50 ms for the next request, and does not look again. -/
def briefly : Service :=
  { pipeline := fun _ => ⟨[.notFound]⟩, settings := { retries := 0, idleTimeout := some 50 } }

/-- A connection with a client that sends `keptRequest` at once, and goes on by a script. -/
def afterKept (rest : List Arrival) : Connection TokenParser :=
  ofClient briefly.settings TokenParser.mk
    ⟨.plain { script := .data keptRequest.octets :: rest }, {}⟩

/-- The loop comes to the exchange behind that request, for which nothing has arrived yet. -/
theorem reaches_afterKept (rest : List Arrival) :
    ∃ c writes accepted flushes,
      Reaches briefly (.fresh, ((afterKept rest).shakeHands briefly).2) (.kept 0, c) ∧
      c.client.subject = .plain { script := rest, writes, accepted, flushes } ∧
      c.reader.buffer = [] ∧ c.reader.atEnd = false ∧
      c.timeline.cancelAt = none ∧ c.timeline.horizon = none := by
  generalize hstart : ((afterKept rest).shakeHands briefly).2 = start
  obtain ⟨c₁, hc₁⟩ : ∃ c₁ : Connection TokenParser, c₁ =
    { start.beginExchange briefly none with
      reader := { start.reader with source := ⟨.plain { script := rest }, {
          (start.timeline.wire (.read 42)) with limits := {} }⟩, lastTaken := 2 } } := ⟨_, rfl⟩
  have hexchange : start.exchange briefly none =
      c₁.handle (briefly.pipeline 0) (keptRequest.request true) := by
    have hreceive := @receive_keptRequest (start.beginExchange briefly none).reader rest
      (start.beginExchange briefly none).timeline (by rw [← hstart]; rfl)
    have hreceived : receive briefly.settings.allowTrailers start.versions
        (start.beginExchange briefly none).reader = _ := hreceive
    rw [exchange_of_received (by rw [← hstart]; rfl) hreceived, hc₁, ← hstart]
    rfl
  obtain ⟨x, hx⟩ : ∃ x, x = (briefly.pipeline 0).executionOf c₁.client.subject.remote
    (keptRequest.request true) := ⟨_, rfl⟩
  obtain ⟨c₂, hc₂⟩ : ∃ c₂, c₂ = c₁.ran x := ⟨_, rfl⟩
  have hsince : Client.Since c₂.timeline none [] c₂.client := by
    rw [hc₂, hx, hc₁, ← hstart]
    exact ⟨⟨_, rfl, Intake.acceptsAll_default⟩, rfl, Timeline.adds_refl rfl rfl⟩
  obtain ⟨reply, hreply⟩ : ∃ reply, x.context.reply? = some reply := by
    rw [hx]
    exact ⟨_, rfl⟩
  have hput : c₂.outbox.clear.put reply = (.ok (), ⟨reply.encode.2⟩) := by
    refine Prod.ext ?_ rfl
    rw [hx] at hreply
    exact (Pipeline.answers_notFound _ _).encodable reply hreply
  -- What is sent leaves the script.
  obtain ⟨client, hsend, hdelivers⟩ := Outbox.delivers_send ⟨reply.encode.2⟩ hsince
  obtain ⟨peer, writes, accepted, flushes, hpeer, hsubject⟩ := hdelivers.peer
  have hopen : x.context.StaysOpen := by
    rw [hx, show c₁.client.subject.remote = none by rw [hc₁]; rfl]
    decide +kernel
  have hhandle : c₁.handle (briefly.pipeline 0) (keptRequest.request true) =
      (.handled true, { c₂ with outbox := {} }.withClient client) := by
    rw [handle_of_reply hx hreply, ← hc₂, hput, decide_eq_true hopen]
    simp only [hsend]
  have hturn : turn? briefly .fresh start =
      some (.kept 0, { c₂ with outbox := {} }.withClient client) := by
    refine turn?_of_handled ?_ ?_ (hexchange.trans hhandle) <;>
    · rw [← hstart]
      rfl
  have hpeer' : c₂.client.subject = .plain { script := rest } := by
    rw [hc₂, hc₁]
    rfl
  rw [hpeer'] at hpeer hsubject
  cases hpeer
  refine ⟨_, writes, accepted, flushes, .single hturn, hsubject, ?_, ?_, hdelivers.adds.cancelAt',
    hdelivers.adds.horizon'⟩
  · rw [hc₂, hc₁, ← hstart]
    rfl
  · rw [hc₂, hc₁, ← hstart]
    rfl

/-- A request that begins too late is not waited for, and nothing is taken of it. -/
theorem exchange_of_lateStart {limit ms : Nat} {p : Peer} {rest : List Arrival}
    (hp : c.client.subject.peer? = some p) (hscript : p.script = .pause ms :: rest)
    (hlate : limit < ms) (hbuffer : c.reader.buffer = []) (hend : c.reader.atEnd = false)
    (hcancel : c.timeline.cancelAt = none) :
    ∃ c', c.exchange s (some limit) = (.idle, c') ∧ c'.reader.pending = c.reader.pending ∧
      c'.reader.atEnd = false := by
  have hread := Client.read_of_deadline (c := (c.beginExchange s (some limit)).client) hp hscript
    hcancel rfl (Nat.le_add_right ..) (Nat.add_lt_add_left hlate _) c.reader.capacity
  generalize hafter : (⟨_, _⟩ : Timed Client) = client at hread
  have hfill := BufferedReader.fill_of_stop
    (r := { (c.beginExchange s (some limit)).reader with lastTaken := 0 }) hend hread
  have hreceive := (BufferedReader.receive_of_fill s.settings.allowTrailers c.versions
    (r := (c.beginExchange s (some limit)).reader) hbuffer).2 _ hfill
  refine ⟨_, exchange_of_stopped hcancel hreceive, ?_, hend⟩
  have hupcoming : client.subject.upcoming = c.client.subject.upcoming := by
    rw [← hafter, Client.upcoming, Client.upcoming, Client.peer?_withPeer, hp]
    show Peer.upcomingIn rest = Peer.upcomingIn p.script
    rw [hscript, Peer.upcomingIn]
  have hpending : c.reader.pending = c.client.subject.upcoming := by
    rw [BufferedReader.pending, hbuffer, hend]
    rfl
  show [] ++ (if c.reader.atEnd then [] else client.subject.upcoming) = _
  rw [hend, hupcoming, hpending]
  rfl

/-- With a limit on waiting, an exchange may take nothing of a stream that goes on without fault: a
second request that begins with the octet `G`, but too late. -/
theorem exchange_takes_nothing :
    let start := ((afterKept [.pause 100, .data [71]]).shakeHands briefly).2
    Client.IsResponsive start.client ∧
      ¬ ∀ stage c outcome c', Reaches briefly (.fresh, start) (stage, c) →
        c.exchange briefly (stage.idleTimeout briefly.settings) = (outcome, c') →
          c'.reader.pending.length < c.reader.pending.length ∨
            (outcome = .noRequest ∧ c'.reader.atEnd = true) ∨ ∃ e, outcome = .failed e := by
  intro start
  refine ⟨⟨⟨_, rfl, Peer.IsSteady.isResponsive ⟨by simp, nofun, rfl⟩⟩, rfl, rfl⟩, fun hall => ?_⟩
  obtain ⟨c, writes, accepted, flushes, hreach, hpeer, hbuffer, hend, hcancel, -⟩ :=
    reaches_afterKept [.pause 100, .data [71]]
  have hlate : 50 < 100 := by decide
  obtain ⟨c', hx, hpending, hend'⟩ := exchange_of_lateStart (s := briefly)
    (by rw [hpeer]; rfl) rfl hlate hbuffer hend hcancel
  rcases hall (.kept 0) c .idle c' hreach hx with hlt | ⟨hnone, -⟩ | ⟨e, he⟩
  · rw [hpending] at hlt
    exact absurd hlt (Nat.lt_irrefl _)
  · cases hnone
  · cases he

end HttpWire.Connection
