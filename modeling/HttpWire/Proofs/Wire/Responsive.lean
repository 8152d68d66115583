import HttpWire.Connection.Outbox
import HttpWire.Proofs.Wire.Waiting

/-!
# Responsive clients

A responsive peer lets no read wait for ever and cancels nothing, but may do whatever else it likes:
fail reads, end early, go away, and take any time over what it sends.  A read of it is interrupted
by a time limit only (`Client.IsResponsive.read`), and no use of a client makes its peer less
responsive (`Client.IsResponsive.write` and its companions).
-/

namespace HttpWire

namespace Timeline

variable {t : Timeline}

/-- A sleep that nothing cancels is interrupted by its deadline only. -/
theorem timedOut_of_sleep {ms : Nat} {cause : Interruption} (hc : t.cancelAt = none)
    (h : (t.sleep ms).1 = .error cause) : cause = .timedOut ∧ t.limits.deadline ≠ none := by
  unfold sleep wait at h
  split at h
  · cases h
  · split at h
    · next hnone =>
      have hmem : ⟨t.now + ms, .ok ()⟩ ∈ t.alarms (some (t.now + ms)) :=
        mem_alarms_iff.mpr (.inl ⟨_, rfl, rfl⟩)
      rw [earliest?_eq_none hnone] at hmem
      cases hmem
    · next a ha =>
      rcases mem_alarms_iff.mp (mem_of_earliest? ha) with ⟨m, -, rfl⟩ | ⟨d, hd, rfl⟩ | hmem
      · cases h
      · refine ⟨(Except.error.inj h).symm, ?_⟩
        rw [hd]
        exact Option.some_ne_none d
      · obtain ⟨-, m, hm, -⟩ := mem_cancelAlarm hmem
        rw [hc] at hm
        cases hm

/-- A sleep that nothing cancels is over in time or at its deadline. -/
theorem sleep_of_deadline {d : Nat} (hc : t.cancelAt = none) (hd : t.limits.deadline = some d)
    (hnow : t.now ≤ d) (ms : Nat) :
    t.sleep ms = if t.now + ms ≤ d then (.ok (), { t with now := t.now + ms })
      else (.error .timedOut, { t with now := d }) := by
  have halarms : t.alarms (some (t.now + ms)) =
      [⟨t.now + ms, .ok ()⟩, ⟨d, .error .timedOut⟩] := by
    have hcancel : t.cancelAlarm = [] := by
      rw [cancelAlarm, hc]
      exact ite_self _
    rw [alarms, hcancel, hd, List.append_nil, List.nil_append, ite_self]
    show [_, (⟨max d t.now, _⟩ : Alarm)] = _
    rw [Nat.max_eq_left hnow]
  unfold sleep
  split
  · next hzero =>
    rw [hzero, Nat.add_zero, if_pos hnow]
  · unfold wait
    rw [halarms]
    unfold earliest? earliest? earliest?
    dsimp only
    by_cases hlate : d < t.now + ms
    · rw [if_pos hlate, if_neg (Nat.not_le.mpr hlate)]
    · rw [if_neg hlate, if_pos (Nat.not_lt.mp hlate)]

@[simp] theorem cancelAt_sleep (t : Timeline) (ms : Nat) :
    (t.sleep ms).2.cancelAt = t.cancelAt := by
  unfold sleep wait
  split
  · rfl
  · split <;> rfl

@[simp] theorem cancelAt_record (t : Timeline) (e : Event) :
    (t.record e).cancelAt = t.cancelAt := by
  unfold record
  split <;> rfl

/-- Acts that do not cancel leave what is to be cancelled. -/
theorem cancelAt_foldl_perform {acts : List Act} (hacts : .cancel ∉ acts) (t : Timeline) :
    (acts.foldl .perform t).cancelAt = t.cancelAt := by
  induction acts generalizing t with
  | nil => rfl
  | cons a acts ih =>
    rw [List.mem_cons, not_or] at hacts
    have hfirst : (t.perform a).cancelAt = t.cancelAt := by
      cases a with
      | mark m => exact cancelAt_record t (.mark m)
      | pause ms => rfl
      | cancel => exact absurd rfl hacts.1
    rw [List.foldl_cons, ih hacts.2, hfirst]

end Timeline

/-! ### Peers -/

namespace Peer

/-- No read of the peer waits for ever, and nothing that arrives cancels work. -/
structure IsResponsive (p : Peer) : Prop where
  arrivals : ∀ a ∈ p.script, a ≠ .cancel ∧ a ≠ .silence
  ending : p.ending ≠ .silent

theorem IsSteady.isResponsive {p : Peer} (h : p.IsSteady) : p.IsResponsive where
  arrivals a ha := by
    obtain ⟨bytes, rfl⟩ | ⟨ms, rfl⟩ := h.arrivals a ha
    · exact ⟨nofun, nofun⟩
    · exact ⟨nofun, nofun⟩
  ending := h.ending

/-- What a read under limits has come to: a responsive peer, and a stop by the deadline at most. -/
structure Responds (limits : Limits) (x : Except (Stop IoError) Bytes × Timed Peer) : Prop where
  peer : x.2.subject.IsResponsive
  cancelAt : x.2.timeline.cancelAt = none
  timedOut : ∀ {cause}, x.1 = .error (.interrupted cause) →
    cause = .timedOut ∧ limits.deadline ≠ none

/-- A read of a responsive peer leaves it responsive, and only a deadline interrupts it. -/
theorem responds_readScript (limit : Nat) (p : Peer) (script : List Arrival) (t : Timeline)
    (hp : { p with script }.IsResponsive) (hc : t.cancelAt = none) :
    Responds t.limits (readScript limit p script t) := by
  have htail {p : Peer} {a : Arrival} {rest : List Arrival}
      (hp : { p with script := a :: rest }.IsResponsive) : { p with script := rest }.IsResponsive :=
    ⟨fun b hb => hp.arrivals b (List.mem_cons_of_mem _ hb), hp.ending⟩
  have hwire {t : Timeline} (hc : t.cancelAt = none) (e : WireEvent) : (t.wire e).cancelAt = none :=
    (Timeline.cancelAt_record t _).trans hc
  have hdata (bytes : Bytes) : Arrival.data bytes ≠ .cancel ∧ Arrival.data bytes ≠ .silence :=
    ⟨Arrival.noConfusion, Arrival.noConfusion⟩
  fun_induction readScript limit p script t with
  | case1 | case2 => exact ⟨⟨hp.arrivals, hp.ending⟩, hwire hc _, fun h => by cases h⟩
  | case3 p t _ hsilent => exact absurd hsilent hp.ending
  | case4 p rest t ih => exact ih (htail hp) hc
  | case5 p bytes rest t hne script =>
    refine ⟨⟨fun a ha => ?_, hp.ending⟩, hwire hc _, fun h => by cases h⟩
    dsimp only [script] at ha
    split at ha
    · exact (htail hp).arrivals a ha
    · rcases List.mem_cons.mp ha with rfl | ha
      · exact hdata _
      · exact (htail hp).arrivals a ha
  | case6 p rest t => exact ⟨htail hp, hwire hc _, fun h => by cases h⟩
  | case7 p e rest t => exact ⟨htail hp, hwire hc _, fun h => by cases h⟩
  | case8 p ms rest t t' hs ih =>
    have hcancel := Timeline.cancelAt_sleep t ms
    have hlimits := Timeline.limits_sleep t ms
    rw [hs] at hcancel hlimits
    rw [← hlimits]
    exact ih (htail hp) (hcancel.trans hc)
  | case9 p ms rest t cause t' hs =>
    have hcancel := Timeline.cancelAt_sleep t ms
    have htimed := @Timeline.timedOut_of_sleep t ms cause hc
    rw [hs] at hcancel htimed
    refine ⟨htail hp, hcancel.trans hc, fun h => ?_⟩
    cases h
    exact htimed rfl
  | case10 p rest t ih => exact ih ⟨(htail hp).arrivals, hp.ending⟩ hc
  | case11 p rest t => exact absurd rfl (hp.arrivals _ List.mem_cons_self).1
  | case12 p rest t => exact absurd rfl (hp.arrivals _ List.mem_cons_self).2

/-- Something that is done to a peer and leaves what arrives from it and what is to be cancelled. -/
def LeavesArrivals {α : Type} (f : Timed Peer → Except IoError α × Timed Peer) : Prop :=
  ∀ p, (f p).2.subject.script = p.subject.script ∧ (f p).2.subject.ending = p.subject.ending ∧
    (f p).2.timeline.cancelAt = p.timeline.cancelAt

theorem leavesArrivals_write (bytes : Bytes) : LeavesArrivals (write bytes) := by
  intro p
  unfold write
  dsimp only
  split <;> exact ⟨rfl, rfl, Timeline.cancelAt_record ..⟩

theorem leavesArrivals_flush : LeavesArrivals flush := by
  intro p
  unfold flush
  dsimp only
  split <;> exact ⟨rfl, rfl, Timeline.cancelAt_record ..⟩

end Peer

/-! ### Clients -/

namespace Client

/-- A client with a responsive peer, of which nothing is cancelled and nothing out of sight. -/
structure IsResponsive (c : Timed Client) : Prop where
  peer : ∃ p, c.subject.peer? = some p ∧ p.IsResponsive
  cancelAt : c.timeline.cancelAt = none
  horizon : c.timeline.horizon = none

variable {c : Timed Client}

theorem IsResponsive.exists_peer (h : IsResponsive c) : ∃ p, c.subject.peer? = some p := by
  obtain ⟨p, hp, -⟩ := h.peer
  exact ⟨p, hp⟩

theorem IsResponsive.isOver (h : IsResponsive c) : c.timeline.isOver = false :=
  Timeline.isOver_of_horizon h.horizon

/-- The client at another moment. -/
theorem IsResponsive.at (h : IsResponsive c) {t : Timeline} (hc : t.cancelAt = c.timeline.cancelAt)
    (hh : t.horizon = c.timeline.horizon) : IsResponsive ⟨c.subject, t⟩ :=
  ⟨h.peer, hc.trans h.cancelAt, hh.trans h.horizon⟩

/-- A read that would have to wait longer is interrupted by its deadline. -/
theorem read_of_deadline {p : Peer} {rest : List Arrival} {ms d : Nat}
    (hp : c.subject.peer? = some p) (hscript : p.script = .pause ms :: rest)
    (hc : c.timeline.cancelAt = none) (hd : c.timeline.limits.deadline = some d)
    (hnow : c.timeline.now ≤ d) (hlate : d < c.timeline.now + ms) (limit : Nat) :
    read limit c = (.error (.interrupted .timedOut),
      ⟨c.subject.withPeer { p with script := rest }, { c.timeline with now := d }⟩) := by
  have hsleep := Timeline.sleep_of_deadline hc hd hnow ms
  rw [if_neg (Nat.not_le.mpr hlate)] at hsleep
  rw [read_eq hp, Peer.read]
  dsimp only
  rw [hscript, Peer.readScript, hsleep]
  rfl

/-- A read of a responsive client leaves it responsive, and only a deadline interrupts it. -/
theorem IsResponsive.read (h : IsResponsive c) (limit : Nat) :
    IsResponsive (read limit c).2 ∧
      ∀ {cause}, (Client.read limit c).1 = .error (.interrupted cause) →
        cause = .timedOut ∧ c.timeline.limits.deadline ≠ none := by
  obtain ⟨p, hp, hresponsive⟩ := h.peer
  have hhorizon := (later_read h.exists_peer limit).timeline.horizon.trans h.horizon
  have hresponds := Peer.responds_readScript limit p p.script c.timeline hresponsive h.cancelAt
  rw [read_eq hp] at hhorizon ⊢
  exact ⟨⟨⟨_, peer?_withPeer .., hresponds.peer⟩, hresponds.cancelAt, hhorizon⟩,
    hresponds.timedOut⟩

theorem IsResponsive.onEither {α : Type} {refused : IoError}
    {f : Timed Peer → Except IoError α × Timed Peer} (h : IsResponsive c)
    (hf : Peer.LeavesArrivals f)
    (hhorizon : ∀ p, (f p).2.timeline.horizon = p.timeline.horizon) :
    IsResponsive (onEither f (SecuredClient.withSession refused f) c).2 := by
  obtain ⟨p, hp, hresponsive⟩ := h.peer
  obtain ⟨hscript, hending, hcancel⟩ := hf ⟨p, c.timeline⟩
  rw [onEither_eq hp]
  refine ⟨⟨_, peer?_withPeer .., ?_, ?_⟩, hcancel.trans h.cancelAt, (hhorizon _).trans h.horizon⟩
  · rw [hscript]
    exact hresponsive.arrivals
  · rw [hending]
    exact hresponsive.ending

theorem IsResponsive.write (h : IsResponsive c) (bytes : Bytes) :
    IsResponsive (write bytes c).2 :=
  h.onEither (Peer.leavesArrivals_write bytes) fun p => (Peer.later_write bytes p).timeline.horizon

theorem IsResponsive.flush (h : IsResponsive c) : IsResponsive (flush c).2 :=
  h.onEither Peer.leavesArrivals_flush fun p => (Peer.later_flush p).timeline.horizon

theorem IsResponsive.writeAll (h : IsResponsive c) (bytes : Bytes) :
    IsResponsive (writeAll bytes c).2 := by
  fun_induction Client.writeAll bytes c with
  | case1 => exact h
  | case2 c b bs e c' hw | case3 c b bs c' hw =>
    have hwrite := h.write (b :: bs)
    rw [hw] at hwrite
    exact hwrite
  | case4 c b bs n c' hw ih =>
    have hwrite := h.write (b :: bs)
    rw [hw] at hwrite
    exact ih hwrite

end Client

/-- Sending to a responsive client leaves it responsive. -/
theorem Client.IsResponsive.send {c : Timed Client} (h : IsResponsive c) (box : Outbox) :
    IsResponsive (box.send c).2.2 := by
  have hwrite := h.writeAll box.waiting
  unfold Outbox.send
  split
  · exact h
  · split
    · next hw =>
      rw [hw] at hwrite
      exact hwrite
    · next c' hw =>
      rw [hw] at hwrite
      have hflush := hwrite.flush
      split <;> next hf =>
        rw [hf] at hflush
        exact hflush

end HttpWire
