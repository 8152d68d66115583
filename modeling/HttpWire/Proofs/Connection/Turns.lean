import HttpWire.Connection.Basic
import HttpWire.Proofs.Reading.Flatten
import HttpWire.Proofs.Steps
import HttpWire.Proofs.Wire.Frame
import Mathlib.Logic.Relation

/-!
# The turns of the loop over exchanges

Serving a connection is a walk from exchange to exchange.  `turn?` is one step of it, and `Reaches`
says which stages and connections it comes to.  A request is handed to the pipeline only by an
exchange that receives it (`Hands`), so whatever the loop hands is handed by an exchange that it
comes to (`exists_hands_of_handed`).

An exchange behind which the loop goes on has done to the octets of its reader what receiving does
to a flat reader, and nothing else (`receive_flatten_of_exchange`).
-/

namespace HttpWire.Connection

variable {υ : Type} [VersionResolver υ] {s : Service} {stage stage' : Stage} {c c' : Connection υ}

/-- The stage and the connection before the next exchange, if the loop goes on. -/
def turn? (s : Service) (stage : Stage) (c : Connection υ) : Option (Stage × Connection υ) :=
  if c.timeline.isOver || !c.client.subject.isConnected then none
  else
    match c.exchange s (stage.idleTimeout s.settings) with
    | (.handled true, c') => some (.kept 0, c')
    | (.noRequest, c') =>
      (stage.lookAgain? s.settings).map fun stage' =>
        (stage', c'.onTimeline (·.pass s.settings.backoff))
    | _ => none

/-- The loop comes from one stage and connection to another. -/
def Reaches (s : Service) : Stage × Connection υ → Stage × Connection υ → Prop :=
  Relation.ReflTransGen fun x y => turn? s x.1 x.2 = some y

/-- The exchange at a stage hands a request to the pipeline. -/
structure Hands (s : Service) (stage : Stage) (c : Connection υ) (q : Request) : Prop where
  isOver : c.timeline.isOver = false
  isConnected : c.client.subject.isConnected = true
  notCancelled : (c.beginExchange s (stage.idleTimeout s.settings)).isCancelledFirst = false
  received : ((c.beginExchange s (stage.idleTimeout s.settings)).receiveRequest s).1 =
    .ok (.request q)

/-! ### Turns -/

/-- The loop goes on behind a request that was handled, if the connection is kept. -/
theorem turn?_of_handled (hover : c.timeline.isOver = false)
    (hconn : c.client.subject.isConnected = true)
    (hx : c.exchange s (stage.idleTimeout s.settings) = (.handled true, c')) :
    turn? s stage c = some (.kept 0, c') := by
  rw [turn?, hover, hconn, hx]
  rfl

/-- The loop goes on behind a look that found no request, if it may look again. -/
theorem turn?_of_noRequest (hover : c.timeline.isOver = false)
    (hconn : c.client.subject.isConnected = true)
    (hx : c.exchange s (stage.idleTimeout s.settings) = (.noRequest, c'))
    (hlook : stage.lookAgain? s.settings = some stage') :
    turn? s stage c = some (stage', c'.onTimeline (·.pass s.settings.backoff)) := by
  rw [turn?, hover, hconn, hx]
  simp only [hlook, Bool.not_true, Bool.or_self, Bool.false_eq_true, if_false, Option.map_some]

/-- There is no other turn of the loop. -/
theorem turn_cases (h : turn? s stage c = some (stage', c')) :
    (c.exchange s (stage.idleTimeout s.settings) = (.handled true, c') ∧ stage' = .kept 0) ∨
    ∃ c₁, c.exchange s (stage.idleTimeout s.settings) = (.noRequest, c₁) ∧
      stage.lookAgain? s.settings = some stage' ∧
      c' = c₁.onTimeline (·.pass s.settings.backoff) := by
  unfold turn? at h
  split at h
  · cases h
  · split at h
    · next hx =>
      cases h
      exact .inl ⟨hx, rfl⟩
    · next c₁ hx =>
      obtain ⟨stage₁, hlook, heq⟩ := Option.map_eq_some_iff.mp h
      cases heq
      exact .inr ⟨c₁, hx, hlook, rfl⟩
    · cases h

/-- The loop goes on only while there is time and the client is connected. -/
theorem open_of_turn (h : turn? s stage c = some (stage', c')) :
    c.timeline.isOver = false ∧ c.client.subject.isConnected = true := by
  unfold turn? at h
  split at h
  · cases h
  · next hopen => simpa using hopen

/-- Behind a turn the loop ends as from there. -/
theorem serve_of_turn (h : turn? s stage c = some (stage', c')) :
    serve s stage c = serve s stage' c' := by
  obtain ⟨hover, hconn⟩ := open_of_turn h
  rw [serve_eq, hover, hconn]
  rcases turn_cases h with ⟨hx, rfl⟩ | ⟨c₁, hx, hlook, rfl⟩
  · rw [hx]
    rfl
  · rw [hx, hlook]
    rfl

/-- What the loop comes to ends as the loop does. -/
theorem serve_of_reaches {x y : Stage × Connection υ} (h : Reaches s x y) :
    serve s x.1 x.2 = serve s y.1 y.2 := by
  induction h with
  | refl => rfl
  | tail _ hturn ih => rw [ih, serve_of_turn hturn]

/-! ### What an exchange comes to -/

/-- What the wait for a request comes to if it is stopped. -/
def Outcome.ofStop : Stop ReceiveError → Outcome
  | .fault e => .failed (.request e)
  | .interrupted .timedOut => .idle
  | .interrupted .cancelled => .cancelled
  | .interrupted .stalled => .stalled

/-- What an exchange that has been begun may come to. -/
inductive ComesTo (s : Service) (c : Connection υ) : Outcome × Connection υ → Prop
  | cancelled (h : c.isCancelledFirst = true) :
    ComesTo s c (.cancelled, c.onTimeline (·.under {}))
  | request {q c'} (h : c.isCancelledFirst = false)
    (hr : c.receiveRequest s = (.ok (.request q), c')) :
    ComesTo s c (c'.handle (s.pipeline c'.handled) q)
  | nothing {why c'} (h : c.isCancelledFirst = false)
    (hr : c.receiveRequest s = (.ok (.nothing why), c')) :
    ComesTo s c (.noRequest, why.notice?.elim c' c'.notify)
  | stopped {e c'} (h : c.isCancelledFirst = false) (hr : c.receiveRequest s = (.error e, c')) :
    ComesTo s c (.ofStop e, c')

theorem comesTo_exchange (s : Service) (idleTimeout : Option Nat) (c : Connection υ) :
    ComesTo s (c.beginExchange s idleTimeout) (c.exchange s idleTimeout) := by
  unfold exchange
  simp only
  split
  · next h => exact .cancelled h
  · next h =>
    rw [Bool.not_eq_true] at h
    split
    · next hr => exact .stopped h hr
    · next hr => exact .stopped h hr
    · next hr => exact .stopped h hr
    · next hr => exact .stopped h hr
    · next hr => exact .nothing h hr
    · next hr => exact .request h hr

/-! ### What exchanges do to the octets -/

omit [VersionResolver υ] in
theorem flatten_withClient {client : Timed Client} (box : Outbox)
    (h : Client.Keeps c.client client) :
    ({ c with outbox := box }.withClient client).reader.flatten = c.reader.flatten := by
  show FlatReader.mk (c.reader.buffer ++ if c.reader.atEnd then [] else client.subject.upcoming)
    c.reader.charset c.reader.lastTaken = _
  rw [h.upcoming]
  rfl

omit [VersionResolver υ] in
theorem flatten_send (q : Request) (response : Response) (cookies : CookieJar)
    (c : Connection υ) : (c.send q response cookies).2.reader.flatten = c.reader.flatten := by
  unfold send
  simp only
  split
  · rfl
  · next outbox _ =>
    have h := outbox.keeps_send c.client
    split <;> next hs =>
      rw [hs] at h
      exact flatten_withClient _ h

omit [VersionResolver υ] in
/-- Handling a request reads nothing. -/
theorem flatten_handle (p : Pipeline) (q : Request) (c : Connection υ) :
    (c.handle p q).2.reader.flatten = c.reader.flatten := by
  unfold handle
  simp only
  split
  · rfl
  · exact flatten_send ..

/-- What receiving a request within limits does to the octets. -/
theorem receive_flatten_of_receiveRequest {received : Received}
    (h : c.receiveRequest s = (.ok received, c')) :
    ∃ versions, receive s.settings.allowTrailers c.versions c.reader.flatten =
      (.ok received, versions, c'.reader.flatten) := by
  rcases hr : receive s.settings.allowTrailers c.versions c.reader with ⟨answer, versions, r⟩
  simp only [receiveRequest, hr] at h
  cases h
  have hflat := BufferedReader.receive_flatten (congrArg Prod.fst hr)
  rw [hr] at hflat
  exact ⟨versions, hflat⟩

/-- What an exchange that handles a request or finds none does to the octets. -/
theorem receive_flatten_of_exchange {idleTimeout : Option Nat} {outcome : Outcome}
    (h : c.exchange s idleTimeout = (outcome, c'))
    (ho : outcome = .noRequest ∨ outcome = .handled true) :
    ∃ received versions, receive s.settings.allowTrailers c.versions c.reader.flatten =
      (.ok received, versions, c'.reader.flatten) := by
  have hstep := comesTo_exchange s idleTimeout c
  rw [h] at hstep
  generalize hx : (outcome, c') = x at hstep
  cases hstep with
  | cancelled =>
    cases hx
    rcases ho with ho | ho <;> cases ho
  | @request q c₁ _ hr =>
    obtain ⟨versions, hflat⟩ := receive_flatten_of_receiveRequest hr
    have hc' : c'.reader.flatten = c₁.reader.flatten := by
      rw [← flatten_handle (s.pipeline c₁.handled) q c₁, ← hx]
    exact ⟨_, versions, hc' ▸ hflat⟩
  | @nothing why c₁ _ hr =>
    obtain ⟨versions, hflat⟩ := receive_flatten_of_receiveRequest hr
    have hc' : c'.reader.flatten = c₁.reader.flatten := by
      rw [show c' = why.notice?.elim c₁ c₁.notify from congrArg Prod.snd hx]
      cases why.notice? <;> rfl
    exact ⟨_, versions, hc' ▸ hflat⟩
  | @stopped e _ _ hr =>
    obtain rfl : outcome = .ofStop e := congrArg Prod.fst hx
    rcases e with e | _ | _ | _ <;> rcases ho with ho | ho <;> cases ho

/-- What a turn of the loop does to the octets. -/
theorem receive_flatten_of_turn (h : turn? s stage c = some (stage', c')) :
    ∃ received versions, receive s.settings.allowTrailers c.versions c.reader.flatten =
      (.ok received, versions, c'.reader.flatten) := by
  rcases turn_cases h with ⟨hx, -⟩ | ⟨c₁, hx, -, rfl⟩
  · exact receive_flatten_of_exchange hx (.inr rfl)
  · have hflat := receive_flatten_of_exchange hx (.inl rfl)
    exact hflat

/-! ### What is handed -/

omit [VersionResolver υ] in
theorem handed_send (q : Request) (response : Response) (cookies : CookieJar) (c : Connection υ) :
    (c.send q response cookies).2.timeline.handed = c.timeline.handed := by
  unfold send
  simp only
  split
  · rfl
  · next outbox _ =>
    have h := (outbox.keeps_send c.client).handed
    split <;> next hs =>
      rw [hs] at h
      exact h

omit [VersionResolver υ] in
/-- Whatever the pipeline does, it has been handed at most that one request. -/
theorem mem_handed_handle {p : Pipeline} {q q' : Request}
    (h : q' ∈ (c.handle p q).2.timeline.handed) : q' ∈ c.timeline.handed ∨ q' = q := by
  have hhanded : (c.handle p q).2.timeline.handed = (c.timeline.record (.handed q)).handed := by
    have hanswered (t : Timeline) (acts : List Act) (context : Context) :
        ((acts.foldl .perform t).record (.answered context)).handed = t.handed := by
      rw [Timeline.handed_record (fun _ h => by cases h), Timeline.handed_foldl_perform]
    unfold handle
    simp only
    split
    · exact hanswered ..
    · exact (handed_send ..).trans (hanswered ..)
  rw [hhanded] at h
  unfold Timeline.record at h
  split at h
  · exact .inl h
  · rw [Timeline.handed, Timeline.sights, List.flatMap_append, List.filterMap_append,
      List.mem_append] at h
    exact h.imp id List.mem_singleton.mp

/-- Receiving a request does not hand it yet. -/
theorem handed_receiveRequest (s : Service) (c : Connection υ) :
    (c.receiveRequest s).2.timeline.handed = c.timeline.handed := by
  have hread (requests : List Request) : Preserved fun r : BufferedReader (Timed Client) =>
      r.source.timeline.handed = requests :=
    BufferedReader.preserved_source fun n client h => (Client.handed_read n client).trans h
  exact (hread c.timeline.handed).receive s.settings.allowTrailers c.versions rfl

/-- An exchange hands no request but the one that it receives. -/
theorem mem_handed_exchange {idleTimeout : Option Nat} {q : Request}
    (h : q ∈ (c.exchange s idleTimeout).2.timeline.handed) :
    q ∈ c.timeline.handed ∨ (c.beginExchange s idleTimeout).isCancelledFirst = false ∧
      ((c.beginExchange s idleTimeout).receiveRequest s).1 = .ok (.request q) := by
  have hbegin : (c.beginExchange s idleTimeout).timeline.handed = c.timeline.handed :=
    Timeline.handed_of_events_eq rfl
  have hreceive := (handed_receiveRequest s (c.beginExchange s idleTimeout)).trans hbegin
  have hstep := comesTo_exchange s idleTimeout c
  generalize c.exchange s idleTimeout = x at h hstep
  cases hstep with
  | cancelled => exact .inl (hbegin ▸ h)
  | @request q' c' hc hr =>
    rw [hr] at hreceive
    rcases mem_handed_handle h with h | rfl
    · exact .inl (hreceive ▸ h)
    · exact .inr ⟨hc, congrArg Prod.fst hr⟩
  | @nothing why c' hc hr =>
    rw [hr] at hreceive
    rw [← hreceive]
    left
    cases hnotice : why.notice? with
    | none =>
      rw [hnotice] at h
      exact h
    | some n =>
      rw [hnotice] at h
      rw [← Timeline.handed_record (e := .notice n) (fun _ h => by cases h) c'.timeline]
      exact h
  | stopped hc hr =>
    rw [hr] at hreceive
    exact .inl (hreceive ▸ h)

omit [VersionResolver υ] in
theorem handed_close (c : Connection υ) : c.close.2.timeline.handed = c.timeline.handed :=
  Client.handed_close c.client

/-- **What the loop hands to the pipeline is handed by an exchange that it comes to.** -/
theorem exists_hands_of_handed {q : Request} (h : q ∈ (serve s stage c).2.timeline.handed) :
    q ∈ c.timeline.handed ∨
      ∃ stage' c', Reaches s (stage, c) (stage', c') ∧ Hands s stage' c' q := by
  -- What an exchange has handed was handed before, or the exchange hands it.
  have hexchange {stage : Stage} {c c' : Connection υ} {outcome : Outcome}
      (hover : ¬c.timeline.isOver = true) (hconn : ¬(!c.client.subject.isConnected) = true)
      (hx : c.exchange s (stage.idleTimeout s.settings) = (outcome, c'))
      (h : q ∈ c'.timeline.handed) : q ∈ c.timeline.handed ∨
        ∃ stage' c', Reaches s (stage, c) (stage', c') ∧ Hands s stage' c' q := by
    rw [← show (c.exchange s (stage.idleTimeout s.settings)).2 = c' from congrArg Prod.snd hx] at h
    rcases mem_handed_exchange h with h | ⟨hc, hr⟩
    · exact .inl h
    · refine .inr ⟨stage, c, .refl, ?_, ?_, hc, hr⟩
      · simpa using hover
      · simpa using hconn
  have hlater {stage stage' : Stage} {c c' : Connection υ}
      (hturn : turn? s stage c = some (stage', c'))
      (h : ∃ stage'' c'', Reaches s (stage', c') (stage'', c'') ∧ Hands s stage'' c'' q) :
      ∃ stage'' c'', Reaches s (stage, c) (stage'', c'') ∧ Hands s stage'' c'' q := by
    obtain ⟨stage'', c'', hreach, hhands⟩ := h
    exact ⟨stage'', c'', .head hturn hreach, hhands⟩
  fun_induction serve s stage c with
  | case1 stage c hover => exact .inl h
  | case2 stage c hover hconn =>
    rw [handed_close] at h
    exact .inl h
  | case3 stage c hover hconn c' hx ih =>
    rcases ih h with h | h
    · exact hexchange hover hconn hx h
    · exact .inr (hlater (turn?_of_handled (by simpa using hover) (by simpa using hconn) hx) h)
  | case5 stage c hover hconn c' hx stage' hlook ih =>
    rcases ih h with h | h
    · exact hexchange hover hconn hx h
    · exact .inr
        (hlater (turn?_of_noRequest (by simpa using hover) (by simpa using hconn) hx hlook) h)
  -- The loop ends with this exchange, and closing hands nothing.
  | case4 stage c hover hconn c' hx | case6 stage c hover hconn c' hx
  | case7 stage c hover hconn c' hx | case8 stage c hover hconn c' hx =>
    rw [handed_close] at h
    exact hexchange hover hconn hx h
  | case9 stage c hover hconn e c' hx =>
    rw [handed_close] at h
    refine hexchange hover hconn hx ?_
    rw [← Timeline.handed_record (e := .notice (.exchangeFailed e)) (fun _ h => by cases h)
      c'.timeline]
    exact h
  | case10 stage c hover hconn c' hx => exact hexchange hover hconn hx h

end HttpWire.Connection
