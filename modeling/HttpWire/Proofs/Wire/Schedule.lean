import HttpWire.Proofs.Wire.Responsive

/-!
# When octets arrive

A steady peer sends data with pauses in between, so each of its octets has a moment at which it can
be read: `Peer.delay` counts the pauses in front of it.  Reads wait for the next octet and for
nothing else, hence the moments of all octets stay the same while the peer is read, and a read is
interrupted by its deadline only if the next octet arrives later than that
(`Client.OnSchedule.read`).

Octets are counted from the end of what the peer sends, so that a read does not number them anew.
-/

namespace HttpWire

/-- A sleep that nothing cancels is over in time, or is interrupted by its deadline. -/
theorem Timeline.sleep_cases {t : Timeline} {d : Nat} (hc : t.cancelAt = none)
    (hd : t.limits.deadline = some d) (hnow : t.now ≤ d) (ms : Nat) :
    (t.sleep ms = (.ok (), t.pass ms) ∧ t.now + ms ≤ d) ∨
      (t.sleep ms = (.error .timedOut, { t with now := d }) ∧ d < t.now + ms) := by
  have hsleep := sleep_of_deadline hc hd hnow ms
  by_cases hle : t.now + ms ≤ d
  · rw [if_pos hle] at hsleep
    exact .inl ⟨hsleep, hle⟩
  · rw [if_neg hle] at hsleep
    exact .inr ⟨hsleep, Nat.not_le.mp hle⟩

namespace Peer

/-- The pauses of a script until so many octets have arrived. -/
def delay : Nat → List Arrival → Nat
  | 0, _ => 0
  | _, [] => 0
  | n + 1, .data bytes :: rest => delay (n + 1 - bytes.length) rest
  | n + 1, .pause ms :: rest => ms + delay (n + 1) rest
  | n + 1, _ :: rest => delay (n + 1) rest

@[simp] theorem delay_zero (script : List Arrival) : delay 0 script = 0 := by
  cases script <;> rfl

theorem delay_data (n : Nat) (bytes : Bytes) (rest : List Arrival) :
    delay n (.data bytes :: rest) = delay (n - bytes.length) rest := by
  cases n with
  | zero => rw [delay_zero, Nat.zero_sub, delay_zero]
  | succ n => rfl

theorem delay_pause {n : Nat} (hn : 0 < n) (ms : Nat) (rest : List Arrival) :
    delay n (.pause ms :: rest) = ms + delay n rest := by
  cases n with
  | zero => cases hn
  | succ n => rfl

/-- What is left of a piece arrives with the piece. -/
theorem delay_behind (n limit : Nat) (bytes : Bytes) (rest : List Arrival) :
    delay n (if bytes.length ≤ limit then rest else .data (bytes.drop limit) :: rest) =
      delay (n + (bytes.take limit).length) (.data bytes :: rest) := by
  rw [delay_data]
  split
  · next hle => rw [List.take_of_length_le hle, Nat.add_sub_cancel]
  · next hlt =>
    rw [delay_data, List.length_drop, List.length_take, Nat.min_eq_left (by omega)]
    congr 1
    omega

/-- Later octets do not arrive earlier. -/
theorem delay_mono {m n : Nat} (h : m ≤ n) (script : List Arrival) :
    delay m script ≤ delay n script := by
  induction script generalizing m n with
  | nil => cases m <;> cases n <;> exact Nat.le_refl _
  | cons a rest ih =>
    obtain _ | m := m
    · rw [delay_zero]
      exact Nat.zero_le _
    obtain ⟨n, rfl⟩ : ∃ k, n = k + 1 := ⟨n - 1, by omega⟩
    cases a with
    | data bytes => exact ih (Nat.sub_le_sub_right h _)
    | pause ms => exact Nat.add_le_add_left (ih h) ms
    | nothing | fault | disconnect | cancel | silence => exact ih h

/-- What a read of a steady peer under a deadline has come to: the next octets, which have all
arrived at the moment at which it ends; nothing, at the end; or its deadline, in front of the next
octet. -/
inductive Arrives (p : Peer) (script : List Arrival) (t : Timeline) (d : Nat) :
    Except (Stop IoError) Bytes × Timed Peer → Prop
  | octets {b bs p'} (hsteady : p'.subject.IsSteady) (hread : ReadUpTo ⟨p, t⟩ p')
    (hnow : p'.timeline.now ≤ d)
    (htaken : ∀ n, 0 < n → n ≤ (b :: bs).length → p'.timeline.now = t.now + delay n script)
    (hrest : ∀ n, 0 < n → p'.timeline.now + delay n p'.subject.script =
      t.now + delay (n + (b :: bs).length) script) :
    Arrives p script t d (.ok (b :: bs), p')
  | nothing {p'} : Arrives p script t d (.ok [], p')
  | late {p'} (hread : ReadUpTo ⟨p, t⟩ p') (hnow : p'.timeline.now = d)
    (hlate : d < t.now + delay 1 script) :
    Arrives p script t d (.error (.interrupted .timedOut), p')

/-- A pause goes by in front of what a read comes to. -/
theorem Arrives.pass {p : Peer} {rest : List Arrival} {t : Timeline} {ms d : Nat}
    {x : Except (Stop IoError) Bytes × Timed Peer} (hc : t.cancelAt = none)
    (hh : t.horizon = none) (h : Arrives p rest (t.pass ms) d x) :
    Arrives p (.pause ms :: rest) t d x := by
  have hpassed {p' : Timed Peer} (h : ReadUpTo ⟨p, t.pass ms⟩ p') : ReadUpTo ⟨p, t⟩ p' :=
    ⟨h.intake, h.remote, h.limits, (Timeline.adds_pass hc hh ms).trans h.adds⟩
  have hdelay {n : Nat} (hn : 0 < n) :
      t.now + delay n (.pause ms :: rest) = (t.pass ms).now + delay n rest := by
    rw [delay_pause hn]
    exact (Nat.add_assoc ..).symm
  cases h with
  | octets hsteady hread hnow htaken hrest =>
    refine .octets hsteady (hpassed hread) hnow (fun n hn hle => ?_) fun n hn => ?_
    · rw [hdelay hn]
      exact htaken n hn hle
    · rw [hdelay (Nat.add_pos_left hn _)]
      exact hrest n hn
  | nothing => exact .nothing
  | late hread hnow hlate =>
    refine .late (hpassed hread) hnow ?_
    rw [hdelay Nat.one_pos]
    exact hlate

theorem arrives_readScript {limit d : Nat} {p : Peer} {script : List Arrival} {t : Timeline}
    (hlimit : 0 < limit) (hp : { p with script }.IsSteady) (hc : t.cancelAt = none)
    (hh : t.horizon = none) (hd : t.limits.deadline = some d) (hnow : t.now ≤ d) :
    Arrives p script t d (readScript limit p script t) := by
  fun_induction readScript limit p script t with
  | case1 | case2 => exact .nothing
  | case3 p t _ hsilent => exact absurd hsilent hp.ending
  | case4 p rest t ih =>
    -- An empty piece delays nothing.
    have h := ih hp.tail hc hh hd hnow
    have hdelay (n : Nat) : delay n (.data [] :: rest) = delay n rest := delay_data n [] rest
    generalize readScript limit p rest t = x at h
    cases h with
    | octets hsteady hread hnow htaken hrest =>
      refine .octets hsteady hread hnow (fun n => ?_) fun n => ?_
      · rw [hdelay]
        exact htaken n
      · rw [hdelay]
        exact hrest n
    | nothing => exact .nothing
    | late hread hnow hlate =>
      rw [← hdelay] at hlate
      exact .late hread hnow hlate
  | case5 p bytes rest t hne script =>
    obtain ⟨b, bs, rfl⟩ := List.exists_cons_of_ne_nil hne
    obtain ⟨limit, rfl⟩ : ∃ n, limit = n + 1 := ⟨limit - 1, by omega⟩
    have hmoment (count : Nat) : (t.wire (.read count)).now = t.now := Timeline.now_record t _
    refine .octets (hp.behind (limit + 1)) (.of_record rfl rfl hc hh) ((hmoment _).symm ▸ hnow)
      (fun n _ hle => ?_) fun n _ => ?_
    · have htook : n - (b :: bs).length = 0 := by
        have hlength : (b :: bs.take limit).length ≤ (b :: bs).length :=
          Nat.succ_le_succ (List.length_take_le' ..)
        omega
      rw [hmoment, delay_data, htook, delay_zero]
      rfl
    · rw [hmoment]
      exact congrArg (t.now + ·) (delay_behind n (limit + 1) (b :: bs) rest)
  | case8 p ms rest t t' hsleep ih =>
    rcases t.sleep_cases hc hd hnow ms with ⟨hok, hle⟩ | ⟨herror, -⟩
    · rw [hok] at hsleep
      cases hsleep
      exact (ih hp.tail hc hh hd hle).pass hc hh
    · rw [herror] at hsleep
      cases hsleep
  | case9 p ms rest t cause t' hsleep =>
    rcases t.sleep_cases hc hd hnow ms with ⟨hok, -⟩ | ⟨herror, hlate⟩
    · rw [hok] at hsleep
      cases hsleep
    · rw [herror] at hsleep
      cases hsleep
      refine .late ⟨rfl, rfl, rfl, Timeline.adds_of_events_eq hc hh hc hh rfl⟩ rfl ?_
      rw [delay_pause Nat.one_pos]
      omega
  | case6 | case7 | case10 | case11 | case12 =>
    obtain ⟨_, ha⟩ | ⟨_, ha⟩ := hp.arrivals _ (List.mem_cons_self ..) <;> cases ha

end Peer

/-! ### Clients -/

namespace Client

/-- The pauses of a client's peer until so many octets have arrived. -/
def delay (n : Nat) (c : Client) : Nat :=
  (c.peer?.map fun p => Peer.delay n p.script).getD 0

variable {c : Timed Client} {client : Client} {p : Peer} {start : Timeline}
  {remote : Option Address} {seen : List Sight} {due : Nat → Nat} {d limit : Nat}

theorem delay_eq (hp : client.peer? = some p) (n : Nat) :
    client.delay n = Peer.delay n p.script := by
  rw [delay, hp]
  rfl

theorem upcoming_eq (hp : client.peer? = some p) : client.upcoming = p.upcoming := by
  rw [upcoming, hp]
  rfl

/-- A client with a steady peer that is read by schedule, before the deadline `d`: `due j` is the
moment at which no more than `j` octets are left to arrive. -/
structure OnSchedule (start : Timeline) (remote : Option Address) (seen : List Sight)
    (due : Nat → Nat) (d : Nat) (c : Timed Client) : Prop where
  since : Since start remote seen c
  steady : ∃ p, c.subject.peer? = some p ∧ p.IsSteady
  deadline : c.timeline.limits.deadline = some d
  inTime : c.timeline.now ≤ d
  toCome : ∀ n, 0 < n → n ≤ c.subject.upcoming.length →
    c.timeline.now + c.subject.delay n = due (c.subject.upcoming.length - n)
  arrived : ∀ j, c.subject.upcoming.length ≤ j → due j ≤ c.timeline.now

/-- The schedule that the pauses of a client's peer make. -/
def schedule (c : Timed Client) (j : Nat) : Nat :=
  c.timeline.now + c.subject.delay (c.subject.upcoming.length - j)

/-- A client with a steady peer is on its own schedule. -/
theorem onSchedule (hs : Since start remote seen c)
    (hsteady : ∃ p, c.subject.peer? = some p ∧ p.IsSteady)
    (hd : c.timeline.limits.deadline = some d) (hnow : c.timeline.now ≤ d) :
    OnSchedule start remote seen (schedule c) d c where
  since := hs
  steady := hsteady
  deadline := hd
  inTime := hnow
  toCome n _ hle := by
    rw [schedule, Nat.sub_sub_self hle]
  arrived j hle := by
    obtain ⟨p, hp, -⟩ := hsteady
    rw [schedule, Nat.sub_eq_zero_of_le hle, delay_eq hp, Peer.delay_zero]
    exact Nat.le_refl _

namespace OnSchedule

/-- The next octets do not arrive later than those behind them. -/
theorem due_le (h : OnSchedule start remote seen due d c) {j : Nat}
    (hj : j < c.subject.upcoming.length) : due (c.subject.upcoming.length - 1) ≤ due j := by
  obtain ⟨p, hp, -⟩ := h.steady
  have hmono := Peer.delay_mono (show 1 ≤ c.subject.upcoming.length - j by omega) p.script
  have hfirst := h.toCome 1 Nat.one_pos (by omega)
  have hlast := h.toCome (c.subject.upcoming.length - j) (by omega) (by omega)
  rw [Nat.sub_sub_self (by omega)] at hlast
  rw [delay_eq hp] at hfirst hlast
  omega

/-- **A read by schedule** returns the next octets, or is interrupted by its deadline, in front of
the next octet. -/
theorem read (h : OnSchedule start remote seen due d c) (hne : c.subject.upcoming ≠ [])
    (hlimit : 0 < limit) :
    (∃ b bs c', Client.read limit c = (.ok (b :: bs), c') ∧
        OnSchedule start remote seen due d c') ∨
      ∃ c', Client.read limit c = (.error (.interrupted .timedOut), c') ∧
        Since start remote seen c' ∧ c'.timeline.now = d ∧
        d < due (c.subject.upcoming.length - 1) := by
  obtain ⟨p, hp, hsteady⟩ := h.steady
  have hupcoming := upcoming_eq hp
  have harrives := Peer.arrives_readScript (p := p) (t := c.timeline) hlimit hsteady
    h.since.adds.cancelAt' h.since.adds.horizon' h.deadline h.inTime
  have hfirst := h.toCome 1 Nat.one_pos (List.length_pos_iff.mpr hne)
  rw [delay_eq hp] at hfirst
  rw [read_eq hp, Peer.read]
  dsimp only
  generalize hx : Peer.readScript limit p p.script c.timeline = x at harrives
  cases harrives with
  | nothing =>
    rw [hupcoming] at hne
    exact absurd (Peer.upcomingIn_of_readScript_nil hlimit hx) hne
  | @late p' hread hnow hlate =>
    rw [hfirst] at hlate
    exact .inr ⟨_, rfl, h.since.read hp hread, hnow, hlate⟩
  | @octets b bs p' hsteady' hread hnow htaken hrest =>
    have hlength : c.subject.upcoming.length =
        p'.subject.upcoming.length + (b :: bs).length := by
      rw [hupcoming, show p.upcoming = b :: bs ++ p'.subject.upcoming from
        Peer.upcomingIn_of_readScript hx, List.length_append, Nat.add_comm]
    have hpeer := peer?_withPeer c.subject p'.subject
    have hbehind : (c.subject.withPeer p'.subject).upcoming = p'.subject.upcoming :=
      upcoming_eq hpeer
    refine .inl ⟨b, bs, _, rfl, h.since.read hp hread, ⟨_, hpeer, hsteady'⟩,
      (congrArg Limits.deadline hread.limits).trans h.deadline, hnow, fun n hn hle => ?_,
      fun j hle => ?_⟩
    · change n ≤ (c.subject.withPeer p'.subject).upcoming.length at hle
      show p'.timeline.now + (c.subject.withPeer p'.subject).delay n =
        due ((c.subject.withPeer p'.subject).upcoming.length - n)
      rw [hbehind] at hle ⊢
      rw [delay_eq hpeer, hrest n hn, ← delay_eq hp, h.toCome _ (by omega) (by omega), hlength]
      congr 1
      omega
    · change (c.subject.withPeer p'.subject).upcoming.length ≤ j at hle
      rw [hbehind] at hle
      show due j ≤ p'.timeline.now
      by_cases hj : c.subject.upcoming.length ≤ j
      -- What had arrived before the read has arrived behind it.
      · have hlast := htaken 1 Nat.one_pos (by simp)
        have hbefore := h.arrived j hj
        omega
      · have hlast := htaken (c.subject.upcoming.length - j) (by omega) (by omega)
        rw [← delay_eq hp, h.toCome _ (by omega) (by omega), Nat.sub_sub_self (by omega)] at hlast
        exact Nat.le_of_eq hlast.symm

end OnSchedule

end Client

end HttpWire
