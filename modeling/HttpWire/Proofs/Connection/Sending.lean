import HttpWire.Connection.Outbox
import HttpWire.Proofs.Wire.Steady

/-!
# Sending to a client that accepts all

A client that accepts all may take every write in pieces of any size.  All octets of an outbox
reach it nevertheless, each once and in their order (`delivers_send`), because each write takes at
least one octet and the next one offers what is left.

Sending changes only how much the peer has been offered and has accepted (`Client.Delivers`), so
what can be read from the client stays as it was.
-/

namespace HttpWire

namespace Client

/-- The client later on: it has accepted those octets, and what can be read from it is as it
was. -/
structure Delivers (c : Timed Client) (octets : Bytes) (c' : Timed Client) : Prop where
  peer : ∃ p writes accepted flushes, c.subject.peer? = some p ∧
    c'.subject = c.subject.withPeer { p with writes, accepted, flushes }
  adds : c.timeline.Adds c'.timeline (octets.map .accepted)

variable {c c' c'' : Timed Client} {start : Timeline} {remote : Option Address}
  {seen : List Sight} {octets octets' : Bytes}

@[simp] theorem withPeer_withPeer (client : Client) (p p' : Peer) :
    (client.withPeer p).withPeer p' = client.withPeer p' := by
  cases client <;> rfl

namespace Delivers

theorem trans (h : Delivers c octets c') (h' : Delivers c' octets' c'') :
    Delivers c (octets ++ octets') c'' where
  peer := by
    obtain ⟨p, writes, accepted, flushes, hp, hc'⟩ := h.peer
    obtain ⟨p', writes', accepted', flushes', hp', hc''⟩ := h'.peer
    rw [hc', peer?_withPeer, Option.some.injEq] at hp'
    refine ⟨p, writes', accepted', flushes', hp, ?_⟩
    rw [hc'', hc', withPeer_withPeer, ← hp']
  adds := by
    rw [List.map_append]
    exact h.adds.trans h'.adds

theorem exists_peer?_eq {p : Peer} (h : Delivers c octets c') (hp : c.subject.peer? = some p) :
    ∃ writes accepted flushes, c'.subject.peer? = some { p with writes, accepted, flushes } := by
  obtain ⟨q, writes, accepted, flushes, hq, hc'⟩ := h.peer
  have hqp : q = p := Option.some.inj (hq.symm.trans hp)
  refine ⟨writes, accepted, flushes, ?_⟩
  rw [hc', peer?_withPeer, hqp]

/-- What has been delivered is seen. -/
theorem since (h : Delivers c octets c') (hs : Since start remote seen c) :
    Since start remote (seen ++ octets.map .accepted) c' where
  peer := by
    obtain ⟨p, hp, hall⟩ := hs.peer
    obtain ⟨writes, accepted, flushes, hp'⟩ := h.exists_peer?_eq hp
    exact ⟨_, hp', hall⟩
  remote := by
    obtain ⟨p, writes, accepted, flushes, hp, hc'⟩ := h.peer
    rw [hc']
    apply (remote_withPeer hp ?_).trans hs.remote
    rfl
  adds := hs.adds.trans h.adds

/-- A steady peer stays steady. -/
theorem isSteady (h : Delivers c octets c')
    (hs : ∃ p, c.subject.peer? = some p ∧ p.IsSteady) :
    ∃ p, c'.subject.peer? = some p ∧ p.IsSteady := by
  obtain ⟨p, hp, hsteady⟩ := hs
  obtain ⟨writes, accepted, flushes, hp'⟩ := h.exists_peer?_eq hp
  exact ⟨_, hp', hsteady.arrivals, hsteady.ending, hsteady.connected⟩

theorem upcoming (h : Delivers c octets c') : c'.subject.upcoming = c.subject.upcoming := by
  obtain ⟨p, writes, accepted, flushes, hp, hc'⟩ := h.peer
  rw [Client.upcoming, Client.upcoming, hc', peer?_withPeer, hp]
  rfl

end Delivers

/-! ### Writing -/

theorem delivers_refl (hs : Since start remote seen c) : Delivers c [] c where
  peer := by
    obtain ⟨p, hp, -⟩ := hs.peer
    exact ⟨p, p.writes, p.accepted, p.flushes, hp, (withPeer_eq hp).symm⟩
  adds := Timeline.adds_refl hs.adds.cancelAt' hs.adds.horizon'

/-- A write is accepted through some octet, which need not be the last. -/
theorem delivers_write (b : UInt8) (bs : Bytes)
    (hs : Since start remote seen c) :
    ∃ n c', write (b :: bs) c = (.ok (n + 1), c') ∧ Delivers c (b :: bs.take n) c' := by
  obtain ⟨p, hp, hall⟩ := hs.peer
  obtain ⟨n, hn, hanswer⟩ := hall.write p.writes p.accepted (b :: bs).length (Nat.succ_pos _)
  obtain ⟨k, hk⟩ : ∃ k, min n (b :: bs).length = k + 1 :=
    ⟨min n (b :: bs).length - 1, by rw [List.length_cons]; omega⟩
  refine ⟨k, ⟨c.subject.withPeer
    { p with writes := p.writes + 1, accepted := p.accepted + (k + 1) },
    c.timeline.wire (.wrote (b :: bs.take k))⟩, ?_, ⟨p, _, _, _, hp, rfl⟩, ?_⟩
  · rw [write_eq hp, Peer.write]
    simp only [hanswer, hk]
    rfl
  · exact Timeline.adds_record hs.adds.cancelAt' hs.adds.horizon' (.wire (.wrote (b :: bs.take k)))

theorem delivers_flush (hs : Since start remote seen c) :
    ∃ c', flush c = (.ok (), c') ∧ Delivers c [] c' := by
  obtain ⟨p, hp, hall⟩ := hs.peer
  refine ⟨⟨c.subject.withPeer { p with flushes := p.flushes + 1 }, c.timeline.wire .flushed⟩, ?_,
    ⟨p, _, _, _, hp, rfl⟩, ?_⟩
  · rw [flush_eq hp, Peer.flush]
    simp only [hall.flush p.flushes]
    rfl
  · exact Timeline.adds_record hs.adds.cancelAt' hs.adds.horizon' (.wire .flushed)

/-- All octets are accepted, however many at a time. -/
theorem delivers_writeAll (bytes : Bytes) (hs : Since start remote seen c) :
    ∃ c', writeAll bytes c = (.ok (), c') ∧ Delivers c bytes c' := by
  fun_induction writeAll bytes c generalizing seen with
  | case1 c => exact ⟨c, rfl, delivers_refl hs⟩
  -- A client that accepts all reports no error, and takes at least one octet.
  | case2 c b bs e c' hw =>
    obtain ⟨n, c'', hw', -⟩ := delivers_write b bs hs
    rw [hw] at hw'
    cases hw'
  | case3 c b bs c' hw =>
    obtain ⟨n, c'', hw', -⟩ := delivers_write b bs hs
    rw [hw] at hw'
    cases hw'
  | case4 c b bs n c' hw ih =>
    -- The write takes a front part, and the loop offers the rest.
    obtain ⟨m, c₁, hw', hd⟩ := delivers_write b bs hs
    rw [hw] at hw'
    cases hw'
    obtain ⟨c₂, hall, hd'⟩ := ih (hd.since hs)
    refine ⟨c₂, hall, ?_⟩
    have hsplit : b :: bs.take n ++ bs.drop n = b :: bs := by
      rw [List.cons_append, List.take_append_drop]
    rw [← hsplit]
    exact hd.trans hd'

end Client

namespace Outbox

open Client in
/-- **What waits in an outbox is delivered**, and the outbox is empty behind it. -/
theorem delivers_send {c : Timed Client} {start : Timeline} {remote : Option Address}
    {seen : List Sight} (box : Outbox) (hs : Since start remote seen c) :
    ∃ c', box.send c = (.ok (), {}, c') ∧ Delivers c box.waiting c' := by
  obtain ⟨waiting⟩ := box
  rw [send]
  by_cases hempty : waiting = []
  · rw [hempty]
    exact ⟨c, rfl, delivers_refl hs⟩
  · obtain ⟨c₁, hwrite, hd₁⟩ := delivers_writeAll waiting hs
    obtain ⟨c₂, hflush, hd₂⟩ := delivers_flush (hd₁.since hs)
    refine ⟨c₂, ?_, ?_⟩
    · rw [if_neg (by simpa using hempty)]
      simp only [hwrite, hflush]
    · have hd := hd₁.trans hd₂
      rwa [List.append_nil] at hd

end Outbox

end HttpWire
