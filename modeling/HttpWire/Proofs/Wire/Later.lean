import HttpWire.Proofs.Wire.Steady

/-!
# What happens to a client, whatever it does

`Timeline.Later` says of two moments of one timeline which events lie in between, for any timeline:
waits may be cut short, work may be cancelled, and there may be a horizon, behind which no event is
promised.  Stretches are put together by `Later.trans`.

Every use of a client that can be reached leaves exactly one event on the timeline, except that a
read that is interrupted leaves none (`Client.later_read` and its companions).  Offering octets
until all have been accepted leaves a row of writes, which ends with the first that is not accepted
(`Client.later_writeAll`).
-/

namespace HttpWire

/-! ### Logs -/

/-- The requests that are handed to the pipeline in a stretch of a log. -/
def requestsIn (es : List (Nat × Event)) : List Request :=
  (es.flatMap fun e => Sight.ofEvent e.2).filterMap Sight.request?

/-- The octets that the client accepts in a stretch of a log. -/
def octetsIn (es : List (Nat × Event)) : Bytes :=
  (es.flatMap fun e => Sight.ofEvent e.2).filterMap Sight.octet?

/-- The context in which the pipeline is left by an event. -/
def Event.context? : Event → Option Context
  | .answered c => some c
  | _ => none

/-- The contexts in which the pipeline is left in a stretch of a log. -/
def contextsIn (es : List (Nat × Event)) : List Context :=
  es.filterMap fun e => e.2.context?

variable {es es' : List (Nat × Event)}

theorem requestsIn_append (es es' : List (Nat × Event)) :
    requestsIn (es ++ es') = requestsIn es ++ requestsIn es' := by
  rw [requestsIn, List.flatMap_append, List.filterMap_append]
  rfl

theorem octetsIn_append (es es' : List (Nat × Event)) :
    octetsIn (es ++ es') = octetsIn es ++ octetsIn es' := by
  rw [octetsIn, List.flatMap_append, List.filterMap_append]
  rfl

theorem contextsIn_append (es es' : List (Nat × Event)) :
    contextsIn (es ++ es') = contextsIn es ++ contextsIn es' :=
  List.filterMap_append

theorem contextsIn_eq_nil (h : ∀ e ∈ es, e.2.context? = none) : contextsIn es = [] :=
  List.filterMap_eq_nil_iff.mpr h

theorem octetsIn_wrote (m : Nat) (bytes : Bytes) :
    octetsIn [(m, .wire (.wrote bytes))] = bytes := by
  rw [octetsIn, List.flatMap_singleton]
  exact Sight.filterMap_octet?_accepted bytes

theorem requestsIn_wrote (m : Nat) (bytes : Bytes) :
    requestsIn [(m, .wire (.wrote bytes))] = [] := by
  rw [requestsIn, List.flatMap_singleton]
  exact Sight.filterMap_request?_accepted bytes

/-- An event by which no request is handed and no octet accepted. -/
def Event.IsUnseen (e : Event) : Prop :=
  Sight.ofEvent e = []

theorem requestsIn_eq_nil (h : ∀ e ∈ es, e.2.IsUnseen) : requestsIn es = [] := by
  rw [requestsIn, List.flatMap_eq_nil_iff.mpr h]
  rfl

theorem octetsIn_eq_nil (h : ∀ e ∈ es, e.2.IsUnseen) : octetsIn es = [] := by
  rw [octetsIn, List.flatMap_eq_nil_iff.mpr h]
  rfl

namespace Timeline

/-! ### Stretches -/

/-- The timeline `t'` is `t` later on, and `es` is what happened in between, of which nothing is
said once the horizon has been passed.  Cancellation is not moved into the past, and is not
withdrawn. -/
structure Later (t t' : Timeline) (es : List (Nat × Event)) : Prop where
  now_le : t.now ≤ t'.now
  horizon : t'.horizon = t.horizon
  cancelAt : ∀ {moment}, t'.cancelAt = some moment → t.cancelAt = some moment ∨ t.now ≤ moment
  isSome : t.cancelAt.isSome → t'.cancelAt.isSome
  events : t'.isOver = false → t'.events = t.events ++ es

variable {t t' t'' : Timeline}

theorem isOver_eq_false_iff : t.isOver = false ↔ ∀ h, t.horizon = some h → t.now ≤ h := by
  unfold isOver
  cases t.horizon with
  | none => simp
  | some h => simp

/-- Without a horizon, all is seen. -/
theorem isOver_of_horizon (h : t.horizon = none) : t.isOver = false := by
  unfold isOver
  rw [h]

namespace Later

/-- What is not over has not been over before. -/
theorem isOver (h : Later t t' es) (hover : t'.isOver = false) : t.isOver = false := by
  rw [isOver_eq_false_iff] at hover ⊢
  rw [h.horizon] at hover
  exact fun m hm => Nat.le_trans h.now_le (hover m hm)

theorem trans (h : Later t t' es) (h' : Later t' t'' es') : Later t t'' (es ++ es') where
  now_le := Nat.le_trans h.now_le h'.now_le
  horizon := h'.horizon.trans h.horizon
  cancelAt hm := by
    rcases h'.cancelAt hm with hm | hm
    · exact h.cancelAt hm
    · exact .inr (Nat.le_trans h.now_le hm)
  isSome := h'.isSome ∘ h.isSome
  events hover := by
    have hevents := h.events (h'.isOver hover)
    rw [h'.events hover, hevents, List.append_assoc]

/-- A stretch behind which nothing happens. -/
theorem trans_nil (h : Later t t' es) (h' : Later t' t'' []) : Later t t'' es := by
  have htrans := h.trans h'
  rwa [List.append_nil] at htrans

/-- A stretch in front of which nothing happens. -/
theorem nil_trans (h : Later t t' []) (h' : Later t' t'' es) : Later t t'' es :=
  h.trans h'

end Later

/-- Time may have passed. -/
theorem later_of_events_eq (hnow : t.now ≤ t'.now) (hhorizon : t'.horizon = t.horizon)
    (hcancel : t'.cancelAt = t.cancelAt) (hevents : t'.events = t.events) : Later t t' [] where
  now_le := hnow
  horizon := hhorizon
  cancelAt hm := .inl (hcancel ▸ hm)
  isSome hsome := hcancel ▸ hsome
  events _ := by rw [hevents, List.append_nil]

theorem later_refl (t : Timeline) : Later t t [] :=
  later_of_events_eq (Nat.le_refl _) rfl rfl rfl

theorem later_under (t : Timeline) (limits : Limits) : Later t (t.under limits) [] :=
  later_of_events_eq (Nat.le_refl _) rfl rfl rfl

theorem later_pass (t : Timeline) (ms : Nat) : Later t (t.pass ms) [] :=
  later_of_events_eq (Nat.le_add_right ..) rfl rfl rfl

theorem later_record (t : Timeline) (e : Event) : Later t (t.record e) [(t.now, e)] := by
  unfold record
  split
  · next hover =>
    refine ⟨Nat.le_refl _, rfl, .inl, id, fun h => ?_⟩
    rw [hover] at h
    cases h
  · exact ⟨Nat.le_refl _, rfl, .inl, id, fun _ => rfl⟩

theorem later_wire (t : Timeline) (e : WireEvent) : Later t (t.wire e) [(t.now, .wire e)] :=
  later_record t (.wire e)

theorem later_cancel (t : Timeline) : Later t t.cancel [] where
  now_le := Nat.le_refl _
  horizon := rfl
  cancelAt {moment} hm := by
    rw [cancel] at hm
    cases hc : t.cancelAt with
    | none =>
      rw [hc] at hm
      exact .inr (Nat.le_of_eq (Option.some.inj hm))
    | some c =>
      rw [hc] at hm
      have hmin : min c t.now = moment := Option.some.inj hm
      by_cases hle : c ≤ t.now
      · left
        rw [Nat.min_eq_left hle] at hmin
        rw [hmin]
      · right
        omega
  isSome _ := rfl
  events _ := (List.append_nil _).symm

/-- Performing acts leaves marks and nothing else. -/
theorem later_foldl_perform (t : Timeline) (acts : List Act) :
    ∃ es, Later t (acts.foldl .perform t) es ∧ ∀ e ∈ es, ∃ m, e.2 = .mark m := by
  induction acts generalizing t with
  | nil => exact ⟨[], later_refl t, fun e he => absurd he List.not_mem_nil⟩
  | cons a acts ih =>
    obtain ⟨es, hlater, hmarks⟩ := ih (t.perform a)
    rw [List.foldl_cons]
    cases a with
    | mark m =>
      refine ⟨_, (later_record t (.mark m)).trans hlater, fun e he => ?_⟩
      rcases List.mem_append.mp he with he | he
      · obtain rfl := List.mem_singleton.mp he
        exact ⟨m, rfl⟩
      · exact hmarks e he
    | pause ms => exact ⟨es, (later_pass t ms).nil_trans hlater, hmarks⟩
    | cancel => exact ⟨es, (later_cancel t).nil_trans hlater, hmarks⟩

/-! ### Waiting -/

theorem mem_of_earliest? {alarms : List Alarm} {a : Alarm} (h : earliest? alarms = some a) :
    a ∈ alarms := by
  induction alarms with
  | nil => cases h
  | cons b rest ih =>
    rw [earliest?] at h
    cases hrest : earliest? rest with
    | none =>
      rw [hrest] at h
      obtain rfl := Option.some.inj h
      exact List.mem_cons_self
    | some c =>
      rw [hrest] at h
      dsimp only at h
      split at h
      · obtain rfl := Option.some.inj h
        exact List.mem_cons_of_mem _ (ih hrest)
      · obtain rfl := Option.some.inj h
        exact List.mem_cons_self

theorem mem_cancelAlarm {a : Alarm} (h : a ∈ t.cancelAlarm) :
    t.limits.cancellable = true ∧
      ∃ c, t.cancelAt = some c ∧ a = ⟨max c t.now, .error .cancelled⟩ := by
  rw [cancelAlarm] at h
  split at h
  · next hc =>
    obtain ⟨c, hmem, rfl⟩ := List.mem_map.mp h
    exact ⟨hc, c, Option.mem_toList.mp hmem, rfl⟩
  · cases h

/-- An alarm is that of the wait's end, of the deadline or of cancellation. -/
theorem mem_alarms_iff {until? : Option Nat} {a : Alarm} :
    a ∈ t.alarms until? ↔ (∃ m, until? = some m ∧ a = ⟨m, .ok ()⟩) ∨
      (∃ d, t.limits.deadline = some d ∧ a = ⟨max d t.now, .error .timedOut⟩) ∨
        a ∈ t.cancelAlarm := by
  have hreached : a ∈ until?.toList.map (fun m => Alarm.mk m (.ok ())) ↔
      ∃ m, until? = some m ∧ a = ⟨m, .ok ()⟩ := by
    rw [List.mem_map]
    simp only [Option.mem_toList, eq_comm]
  have hlate : a ∈ t.limits.deadline.toList.map
        (fun d => Alarm.mk (max d t.now) (.error .timedOut)) ↔
      ∃ d, t.limits.deadline = some d ∧ a = ⟨max d t.now, .error .timedOut⟩ := by
    rw [List.mem_map]
    simp only [Option.mem_toList, eq_comm]
  rw [alarms, ← hreached, ← hlate]
  split
  · simp only [List.mem_append, or_assoc]
    rw [or_comm, or_assoc]
  · simp only [List.mem_append, or_assoc]

/-- An alarm does not lie in the past. -/
theorem now_le_of_mem_alarms {until? : Option Nat} {a : Alarm}
    (huntil : ∀ m, until? = some m → t.now ≤ m) (ha : a ∈ t.alarms until?) : t.now ≤ a.moment := by
  rcases mem_alarms_iff.mp ha with ⟨m, hm, rfl⟩ | ⟨d, -, rfl⟩ | ha
  · exact huntil m hm
  · exact Nat.le_max_right ..
  · obtain ⟨-, c, -, rfl⟩ := mem_cancelAlarm ha
    exact Nat.le_max_right ..

theorem later_wait {until? : Option Nat} (huntil : ∀ m, until? = some m → t.now ≤ m) :
    Later t (t.wait until?).2 [] := by
  unfold wait
  split
  · exact later_refl t
  · next a ha =>
    have hnow := now_le_of_mem_alarms huntil (mem_of_earliest? ha)
    exact later_of_events_eq hnow rfl rfl rfl

theorem later_sleep (t : Timeline) (ms : Nat) : Later t (t.sleep ms).2 [] := by
  unfold sleep
  split
  · exact later_refl t
  · apply later_wait
    intro m hm
    obtain rfl := Option.some.inj hm
    exact Nat.le_add_right ..

/-- A sleep reaches its end if that is not behind the deadline. -/
theorem sleep_eq_ok_iff {limit ms : Nat} (hd : t.limits.deadline = some (t.now + limit))
    (hc : t.limits.cancellable = false) : (t.sleep ms).1 = .ok () ↔ ms ≤ limit := by
  have hcancel : t.cancelAlarm = [] := by
    rw [cancelAlarm, hc]
    rfl
  have halarms : t.alarms (some (t.now + ms)) =
      [⟨t.now + ms, .ok ()⟩, ⟨max (t.now + limit) t.now, .error .timedOut⟩] := by
    rw [alarms, hcancel, hd]
    exact ite_self _
  unfold sleep
  split
  · next hms =>
    rw [hms]
    exact ⟨fun _ => Nat.zero_le _, fun _ => rfl⟩
  · have hmax : max (t.now + limit) t.now = t.now + limit := Nat.max_eq_left (Nat.le_add_right ..)
    rw [wait, halarms, hmax, earliest?, earliest?]
    by_cases hlt : limit < ms
    · have hlate : t.now + limit < t.now + ms := Nat.add_lt_add_left hlt _
      simp only [earliest?, if_pos hlate]
      refine ⟨fun h => ?_, fun hle => absurd hle (Nat.not_le.mpr hlt)⟩
      cases h
    · have hlate : ¬ t.now + limit < t.now + ms := by omega
      simp only [earliest?, if_neg hlate, true_iff]
      exact Nat.not_lt.mp hlt

/-- A wait that nothing but the deadline can end does not reach an end. -/
theorem wait_none_ne_ok (t : Timeline) : (t.wait none).1 ≠ .ok () := by
  unfold wait
  split
  · nofun
  · next a ha =>
    rcases mem_alarms_iff.mp (mem_of_earliest? ha) with ⟨m, hm, -⟩ | ⟨d, -, rfl⟩ | hmem
    · cases hm
    · nofun
    · obtain ⟨-, c, -, rfl⟩ := mem_cancelAlarm hmem
      nofun

end Timeline

/-! ### Peers -/

namespace Peer

open Timeline

/-- The peer at another point, at the same address, and what happened in between. -/
structure Later (p p' : Timed Peer) (es : List (Nat × Event)) : Prop where
  remote : p'.subject.remote = p.subject.remote
  timeline : p.timeline.Later p'.timeline es

/-- What a read leaves on the timeline, by its answer. -/
def readLog (moment : Nat) : Except (Stop IoError) Bytes → List (Nat × Event)
  | .ok bytes => [(moment, .wire (.read bytes.length))]
  | .error (.fault _) => [(moment, .wire .readFault)]
  | .error (.interrupted _) => []

/-- What a write leaves on the timeline, by its answer. -/
def writeLog (moment : Nat) (bytes : Bytes) : Except IoError Nat → List (Nat × Event)
  | .ok n => [(moment, .wire (.wrote (bytes.take n)))]
  | .error _ => [(moment, .wire .writeFault)]

/-- What a flush leaves on the timeline, by its answer. -/
def flushLog (moment : Nat) : Except IoError Unit → List (Nat × Event)
  | .ok () => [(moment, .wire .flushed)]
  | .error _ => [(moment, .wire .flushFault)]

theorem later_readNever {p p' : Peer} {t : Timeline} (hremote : p'.remote = p.remote) :
    Later ⟨p, t⟩ (p'.readNever t).2
      (readLog (p'.readNever t).2.timeline.now (p'.readNever t).1) := by
  have hwait : t.Later (t.wait none).2 [] := later_wait nofun
  unfold readNever
  split <;> next hw =>
    rw [hw] at hwait
    exact ⟨hremote, hwait⟩

/-- What is recorded about a read is recorded at the moment at which it ends. -/
theorem later_of_read {p p' : Peer} {t : Timeline} {e : WireEvent}
    (hremote : p'.remote = p.remote) :
    Later ⟨p, t⟩ ⟨p', t.wire e⟩ [((t.wire e).now, .wire e)] := by
  have hnow : (t.wire e).now = t.now := now_record t (.wire e)
  rw [hnow]
  exact ⟨hremote, later_wire t e⟩

theorem later_readScript (limit : Nat) (p : Peer) (script : List Arrival) (t : Timeline) :
    Later ⟨p, t⟩ (readScript limit p script t).2
      (readLog (readScript limit p script t).2.timeline.now (readScript limit p script t).1) := by
  fun_induction readScript limit p script t with
  | case1 | case2 | case5 | case6 | case7 =>
    apply later_of_read
    rfl
  | case3 | case12 =>
    apply later_readNever
    rfl
  | case4 p rest t ih => exact ih
  | case8 p ms rest t t' hs ih =>
    have hsleep := later_sleep t ms
    rw [hs] at hsleep
    exact ⟨ih.remote, hsleep.nil_trans ih.timeline⟩
  | case9 p ms rest t cause t' hs =>
    have hsleep := later_sleep t ms
    rw [hs] at hsleep
    exact ⟨rfl, hsleep⟩
  | case10 p rest t ih => exact ⟨ih.remote, ih.timeline⟩
  | case11 p rest t =>
    have hnever := @later_readNever p { p with script := .silence :: rest } t.cancel rfl
    exact ⟨hnever.remote, (later_cancel t).nil_trans hnever.timeline⟩

theorem later_write (bytes : Bytes) (p : Timed Peer) :
    Later p (write bytes p).2 (writeLog p.timeline.now bytes (write bytes p).1) := by
  unfold write
  dsimp only
  split
  · exact ⟨rfl, later_wire ..⟩
  · exact ⟨rfl, later_wire ..⟩

theorem later_flush (p : Timed Peer) :
    Later p (flush p).2 (flushLog p.timeline.now (flush p).1) := by
  unfold flush
  dsimp only
  split
  · exact ⟨rfl, later_wire ..⟩
  · exact ⟨rfl, later_wire ..⟩

theorem later_close (p : Timed Peer) :
    Later p (close p).2 [(p.timeline.now, .wire .shut)] := by
  unfold close
  dsimp only
  split
  · exact ⟨rfl, later_wire ..⟩
  · exact ⟨rfl, later_wire ..⟩

theorem later_handshake (p : Timed Peer) :
    Later p (handshake p).2 [(p.timeline.now, .wire .handshake)] := by
  have hwire := later_wire p.timeline .handshake
  unfold handshake
  dsimp only
  split
  · exact ⟨rfl, hwire⟩
  · next ms _ =>
    have hsleep := later_sleep (p.timeline.wire .handshake) ms
    split <;> next hs =>
      rw [hs] at hsleep
      exact ⟨rfl, hwire.trans_nil hsleep⟩
  · have hwait : (p.timeline.wire .handshake).Later ((p.timeline.wire .handshake).wait none).2 [] :=
      later_wait nofun
    split <;> next hw =>
      rw [hw] at hwait
      exact ⟨rfl, hwire.trans_nil hwait⟩

/-- A peer shakes hands within a time limit if it does so in time. -/
theorem handshake_eq_ok_iff {limit : Nat} {p : Timed Peer}
    (hd : p.timeline.limits.deadline = some (p.timeline.now + limit))
    (hc : p.timeline.limits.cancellable = false) :
    (handshake p).1 = .ok () ↔ ∃ ms, p.subject.conduct = .succeeds ms ∧ ms ≤ limit := by
  have hlimits : (p.timeline.wire .handshake).limits = p.timeline.limits := limits_record ..
  have hnow : (p.timeline.wire .handshake).now = p.timeline.now := now_record ..
  unfold handshake
  dsimp only
  cases hconduct : p.subject.conduct with
  | fails e => exact ⟨nofun, fun ⟨ms, hms, _⟩ => nomatch hms⟩
  | hangs =>
    have hwait := wait_none_ne_ok (p.timeline.wire .handshake)
    dsimp only
    generalize (p.timeline.wire .handshake).wait none = x at hwait
    obtain ⟨result, t⟩ := x
    cases result with
    | error cause => exact ⟨nofun, fun ⟨ms, hms, _⟩ => nomatch hms⟩
    | ok _ => exact absurd rfl hwait
  | succeeds ms =>
    have hsleep : ((p.timeline.wire .handshake).sleep ms).1 = .ok () ↔ ms ≤ limit := by
      apply sleep_eq_ok_iff
      · rw [hlimits, hnow, hd]
      · rw [hlimits, hc]
    have hiff : (∃ ms', HandshakeConduct.succeeds ms = .succeeds ms' ∧ ms' ≤ limit) ↔
        ms ≤ limit :=
      ⟨fun ⟨ms', hms, hle⟩ => HandshakeConduct.succeeds.inj hms ▸ hle, fun hle => ⟨ms, rfl, hle⟩⟩
    rw [hiff, ← hsleep]
    dsimp only
    generalize (p.timeline.wire .handshake).sleep ms = x
    obtain ⟨result, t⟩ := x
    cases result with
    | error cause => exact ⟨nofun, nofun⟩
    | ok _ => exact ⟨fun _ => rfl, fun _ => rfl⟩

end Peer

/-! ### Clients -/

namespace Client

open Peer

/-- The client at another point, at which it can be reached, and what happened in between. -/
structure Later (c c' : Timed Client) (es : List (Nat × Event)) : Prop where
  peer : ∃ p, c'.subject.peer? = some p
  remote : c'.subject.remote = c.subject.remote
  timeline : c.timeline.Later c'.timeline es

variable {c c' c'' : Timed Client} {p : Peer}

theorem Later.trans (h : Later c c' es) (h' : Later c' c'' es') : Later c c'' (es ++ es') :=
  ⟨h'.peer, h'.remote.trans h.remote, h.timeline.trans h'.timeline⟩

/-- A stretch in front of which nothing happens. -/
theorem Later.nil_trans (h : Later c c' []) (h' : Later c' c'' es) : Later c c'' es :=
  h.trans h'

theorem later_refl (hp : ∃ p, c.subject.peer? = some p) : Later c c [] :=
  ⟨hp, rfl, Timeline.later_refl _⟩

/-- What happens to the peer happens to the client. -/
theorem later_map {p' : Timed Peer} (hp : c.subject.peer? = some p)
    (h : Peer.Later ⟨p, c.timeline⟩ p' es) : Later c (p'.map c.subject.withPeer) es :=
  ⟨⟨p'.subject, peer?_withPeer ..⟩, remote_withPeer hp h.remote, h.timeline⟩

theorem later_read (hp : ∃ p, c.subject.peer? = some p) (limit : Nat) :
    Later c (read limit c).2 (readLog (read limit c).2.timeline.now (read limit c).1) := by
  obtain ⟨p, hp⟩ := hp
  rw [read_eq hp]
  exact later_map hp (later_readScript limit p p.script c.timeline)

theorem later_write (hp : ∃ p, c.subject.peer? = some p) (bytes : Bytes) :
    Later c (write bytes c).2 (writeLog c.timeline.now bytes (write bytes c).1) := by
  obtain ⟨p, hp⟩ := hp
  rw [write_eq hp]
  exact later_map hp (Peer.later_write bytes ⟨p, c.timeline⟩)

theorem later_flush (hp : ∃ p, c.subject.peer? = some p) :
    Later c (flush c).2 (flushLog c.timeline.now (flush c).1) := by
  obtain ⟨p, hp⟩ := hp
  rw [flush_eq hp]
  exact later_map hp (Peer.later_flush ⟨p, c.timeline⟩)

theorem later_close (hp : ∃ p, c.subject.peer? = some p) :
    Later c (close c).2 [(c.timeline.now, .wire .shut)] := by
  obtain ⟨p, hp⟩ := hp
  rw [close_eq hp]
  exact later_map hp (Peer.later_close ⟨p, c.timeline⟩)

end Client

end HttpWire
