import HttpWire.Proofs.Wire.Later

/-!
# Waiting under cancellation

A wait that heeds cancellation is over when cancellation comes, and at once if that has come before
(`Timeline.prompt_wait`).  So a read of a client moves the clock no further than that
(`Client.prompt_read`), and it is stuck only if nothing is ever cancelled
(`Client.cancelAt_of_stalled`).

The moment of cancellation is the one that is known at the end.  A cancellation that comes up while
a read waits is meant as well as one that was fixed before.
-/

namespace HttpWire

namespace Timeline

variable {t t' t'' : Timeline} {alarms : List Alarm} {a : Alarm} {until? : Option Nat}

/-! ### Alarms -/

theorem earliest?_eq_none (h : earliest? alarms = none) : alarms = [] := by
  cases alarms with
  | nil => rfl
  | cons b rest =>
    rw [earliest?] at h
    cases hrest : earliest? rest with
    | none =>
      rw [hrest] at h
      cases h
    | some c =>
      rw [hrest] at h
      dsimp only at h
      split at h <;> cases h

/-- No alarm comes before the earliest one. -/
theorem le_of_earliest? (h : earliest? alarms = some a) :
    ∀ b ∈ alarms, a.moment ≤ b.moment := by
  induction alarms generalizing a with
  | nil => cases h
  | cons b rest ih =>
    rw [earliest?] at h
    cases hrest : earliest? rest with
    | none =>
      rw [hrest] at h
      obtain rfl := Option.some.inj h
      obtain rfl := earliest?_eq_none hrest
      intro x hx
      obtain rfl := List.mem_singleton.mp hx
      exact Nat.le_refl _
    | some c =>
      have hc := ih hrest
      rw [hrest] at h
      dsimp only at h
      split at h
      · next hlt =>
        obtain rfl := Option.some.inj h
        exact List.forall_mem_cons.mpr ⟨Nat.le_of_lt hlt, hc⟩
      · next hle =>
        obtain rfl := Option.some.inj h
        refine List.forall_mem_cons.mpr ⟨Nat.le_refl _, fun x hx => ?_⟩
        exact Nat.le_trans (Nat.not_lt.mp hle) (hc x hx)

/-- A wait that heeds cancellation has an alarm for it. -/
theorem cancelAlarm_mem_alarms {m : Nat} (hc : t.limits.cancellable = true)
    (hm : t.cancelAt = some m) : ⟨max m t.now, .error .cancelled⟩ ∈ t.alarms until? := by
  have hmem : ⟨max m t.now, .error .cancelled⟩ ∈ t.cancelAlarm := by
    rw [cancelAlarm, if_pos hc, hm]
    exact List.mem_singleton.mpr rfl
  exact mem_alarms_iff.mpr (.inr (.inr hmem))

/-! ### Waits -/

/-- The timeline `t'` is `t` later on, and what was waited for in between did not go on behind
cancellation. -/
structure Prompt (t t' : Timeline) : Prop where
  later : ∃ es, Later t t' es
  now_le : ∀ {moment}, t'.cancelAt = some moment → t'.now ≤ max t.now moment

theorem Prompt.trans (h : Prompt t t') (h' : Prompt t' t'') : Prompt t t'' := by
  obtain ⟨es, hlater⟩ := h.later
  obtain ⟨es', hlater'⟩ := h'.later
  refine ⟨⟨es ++ es', hlater.trans hlater'⟩, fun {moment} hm => ?_⟩
  have hnow' := h'.now_le hm
  have hstart := hlater.now_le
  -- Either the first stretch knew of the cancellation, or it ended before that came up.
  rcases hlater'.cancelAt hm with hm' | hm'
  · have hnow := h.now_le hm'
    omega
  · omega

/-- Work takes no time. -/
theorem Prompt.of_now_eq {es : List (Nat × Event)} (h : Later t t' es) (hnow : t'.now = t.now) :
    Prompt t t' where
  later := ⟨es, h⟩
  now_le _ := by
    rw [hnow]
    exact Nat.le_max_left ..

theorem prompt_refl (t : Timeline) : Prompt t t :=
  .of_now_eq (later_refl t) rfl

theorem prompt_wire (t : Timeline) (e : WireEvent) : Prompt t (t.wire e) :=
  .of_now_eq (later_wire t e) (now_record t (.wire e))

theorem prompt_under (t : Timeline) (limits : Limits) : Prompt t (t.under limits) :=
  .of_now_eq (later_under t limits) rfl

theorem prompt_cancel (t : Timeline) : Prompt t t.cancel :=
  .of_now_eq (later_cancel t) rfl

theorem limits_wait (t : Timeline) (until? : Option Nat) : (t.wait until?).2.limits = t.limits := by
  unfold wait
  split <;> rfl

theorem limits_sleep (t : Timeline) (ms : Nat) : (t.sleep ms).2.limits = t.limits := by
  unfold sleep
  split
  · rfl
  · exact t.limits_wait _

/-- **A wait that heeds cancellation is over when that comes.** -/
theorem prompt_wait (hc : t.limits.cancellable = true)
    (huntil : ∀ m, until? = some m → t.now ≤ m) : Prompt t (t.wait until?).2 := by
  refine ⟨⟨[], later_wait huntil⟩, ?_⟩
  unfold wait
  split
  · exact fun _ => Nat.le_max_left ..
  · next a ha =>
    intro moment hm
    have hmem : ⟨max moment t.now, .error .cancelled⟩ ∈ t.alarms until? :=
      cancelAlarm_mem_alarms hc hm
    rw [Nat.max_comm]
    exact le_of_earliest? ha _ hmem

theorem prompt_sleep (hc : t.limits.cancellable = true) (ms : Nat) :
    Prompt t (t.sleep ms).2 := by
  unfold sleep
  split
  · exact prompt_refl t
  · apply prompt_wait hc
    intro m hm
    obtain rfl := Option.some.inj hm
    exact Nat.le_add_right ..

/-- A wait that heeds cancellation is stuck only if nothing is cancelled. -/
theorem cancelAt_of_wait (hc : t.limits.cancellable = true)
    (h : (t.wait until?).1 = .error .stalled) : (t.wait until?).2.cancelAt = none := by
  unfold wait at h ⊢
  split at h
  · next ha =>
    dsimp only
    cases hm : t.cancelAt with
    | none => rfl
    | some m =>
      have hmem : ⟨max m t.now, .error .cancelled⟩ ∈ t.alarms until? :=
        cancelAlarm_mem_alarms hc hm
      rw [earliest?_eq_none ha] at hmem
      cases hmem
  · next a ha =>
    -- No alarm means that a wait is stuck.
    rcases mem_alarms_iff.mp (mem_of_earliest? ha) with ⟨m, -, rfl⟩ | ⟨d, -, rfl⟩ | hmem
    · cases h
    · cases h
    · obtain ⟨-, c, -, rfl⟩ := mem_cancelAlarm hmem
      cases h

theorem cancelAt_of_sleep {ms : Nat} (hc : t.limits.cancellable = true)
    (h : (t.sleep ms).1 = .error .stalled) : (t.sleep ms).2.cancelAt = none := by
  unfold sleep at h ⊢
  split at h
  · cases h
  · next hms =>
    rw [if_neg hms]
    exact cancelAt_of_wait hc h

end Timeline

/-! ### Reads -/

namespace Peer

open Timeline

variable {p : Peer} {t : Timeline}

theorem prompt_readNever (hc : t.limits.cancellable = true) :
    Prompt t (p.readNever t).2.timeline := by
  have hwait : Prompt t (t.wait none).2 := prompt_wait hc nofun
  unfold readNever
  split <;> next hw =>
    rw [hw] at hwait
    exact hwait

theorem cancelAt_of_readNever (hc : t.limits.cancellable = true)
    (h : (p.readNever t).1 = .error (.interrupted .stalled)) :
    (p.readNever t).2.timeline.cancelAt = none := by
  have hstuck := @cancelAt_of_wait t none hc
  have hne := wait_none_ne_ok t
  unfold readNever at h ⊢
  generalize t.wait none = x at h hstuck hne ⊢
  obtain ⟨result, t'⟩ := x
  cases result with
  | error cause =>
    cases h
    exact hstuck rfl
  | ok _ => exact absurd rfl hne

/-- Reading leaves the limits as they are. -/
theorem limits_readScript (limit : Nat) (p : Peer) (script : List Arrival) (t : Timeline) :
    (readScript limit p script t).2.timeline.limits = t.limits := by
  have hnever (p : Peer) (t : Timeline) : (p.readNever t).2.timeline.limits = t.limits := by
    have hwait := t.limits_wait none
    unfold readNever
    split <;> next hw =>
      rw [hw] at hwait
      exact hwait
  fun_induction readScript limit p script t with
  | case1 | case2 | case5 | case6 | case7 => exact limits_record ..
  | case3 | case11 | case12 => exact hnever ..
  | case4 p rest t ih => exact ih
  | case8 p ms rest t t' hs ih =>
    have hsleep := limits_sleep t ms
    rw [hs] at hsleep
    exact ih.trans hsleep
  | case9 p ms rest t cause t' hs =>
    have hsleep := limits_sleep t ms
    rw [hs] at hsleep
    exact hsleep
  | case10 p rest t ih => exact ih

/-- **A read that heeds cancellation is over when that comes.** -/
theorem prompt_readScript (limit : Nat) (p : Peer) (script : List Arrival) (t : Timeline)
    (hc : t.limits.cancellable = true) :
    Prompt t (readScript limit p script t).2.timeline := by
  fun_induction readScript limit p script t with
  | case1 | case2 | case5 | case6 | case7 => exact prompt_wire ..
  | case3 | case12 => exact prompt_readNever hc
  | case4 p rest t ih => exact ih hc
  | case8 p ms rest t t' hs ih =>
    have hsleep := prompt_sleep hc ms
    have hlimits := limits_sleep t ms
    rw [hs] at hsleep hlimits
    apply hsleep.trans
    apply ih
    rw [hlimits, hc]
  | case9 p ms rest t cause t' hs =>
    have hsleep := prompt_sleep hc ms
    rw [hs] at hsleep
    exact hsleep
  | case10 p rest t ih => exact ih hc
  | case11 p rest t => exact (prompt_cancel t).trans (prompt_readNever hc)

/-- A read that heeds cancellation is stuck only if nothing is cancelled. -/
theorem cancelAt_of_readScript {limit : Nat} {script : List Arrival}
    (hc : t.limits.cancellable = true)
    (h : (readScript limit p script t).1 = .error (.interrupted .stalled)) :
    (readScript limit p script t).2.timeline.cancelAt = none := by
  fun_induction readScript limit p script t with
  | case1 | case2 | case5 | case6 | case7 => cases h
  | case3 | case11 | case12 => exact cancelAt_of_readNever hc h
  | case4 p rest t ih => exact ih hc h
  | case8 p ms rest t t' hs ih =>
    have hlimits := limits_sleep t ms
    rw [hs] at hlimits
    apply ih _ h
    rw [hlimits, hc]
  | case9 p ms rest t cause t' hs =>
    have hstuck := @cancelAt_of_sleep t ms hc
    rw [hs] at hstuck
    cases h
    exact hstuck rfl
  | case10 p rest t ih => exact ih hc h

end Peer

namespace Client

open Timeline

variable {c : Timed Client}

theorem prompt_read (limit : Nat) (hp : ∃ p, c.subject.peer? = some p)
    (hc : c.timeline.limits.cancellable = true) :
    Prompt c.timeline (read limit c).2.timeline := by
  obtain ⟨p, hp⟩ := hp
  rw [read_eq hp]
  exact Peer.prompt_readScript limit p p.script c.timeline hc

theorem cancelAt_of_stalled (limit : Nat) (hp : ∃ p, c.subject.peer? = some p)
    (hc : c.timeline.limits.cancellable = true)
    (h : (read limit c).1 = .error (.interrupted .stalled)) :
    (read limit c).2.timeline.cancelAt = none := by
  obtain ⟨p, hp⟩ := hp
  rw [read_eq hp] at h ⊢
  exact Peer.cancelAt_of_readScript hc h

theorem limits_read (limit : Nat) (hp : ∃ p, c.subject.peer? = some p) :
    (read limit c).2.timeline.limits = c.timeline.limits := by
  obtain ⟨p, hp⟩ := hp
  rw [read_eq hp]
  exact Peer.limits_readScript limit p p.script c.timeline

end Client

end HttpWire
