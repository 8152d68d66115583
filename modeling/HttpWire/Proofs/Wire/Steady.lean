import HttpWire.Proofs.Reading.Flatten
import HttpWire.Proofs.Wire.Views

/-!
# Steady clients

A steady peer sends data with pauses in between and then ends; it is there until the read that finds
the end.  Reads of it are never stopped, whatever the pauses are, as long as there is no deadline
and nothing is cancelled.  `Client.steady` is the regime of the clients that have such a peer.

A client that accepts all takes at least one octet of every write.
-/

namespace HttpWire

/-! ### Peers -/

/-- Every write is accepted at least in part, and no flush fails. -/
structure Intake.AcceptsAll (i : Intake) : Prop where
  write : ∀ writes accepted offered, 0 < offered →
    ∃ n, 0 < n ∧ i.onWrite writes accepted offered = .accept n
  flush : ∀ before, i.onFlush before = none

theorem Intake.acceptsAll_default : Intake.AcceptsAll {} where
  write _ _ offered h := ⟨offered, h, rfl⟩
  flush _ := rfl

/-- A bound on single writes is no obstacle unless it is zero. -/
theorem Intake.acceptsAll_ofBounds {bound : Nat} (h : 0 < bound) :
    (Intake.ofBounds { perWrite := some bound }).AcceptsAll where
  write _ _ offered hoffered := by
    refine ⟨min bound (min offered offered), ?_, rfl⟩
    omega
  flush _ := rfl

namespace Peer

/-- The peer sends data with pauses and then ends. -/
structure IsSteady (p : Peer) : Prop where
  arrivals : ∀ a ∈ p.script, (∃ bytes, a = .data bytes) ∨ ∃ ms, a = .pause ms
  ending : p.ending ≠ .silent
  connected : p.connected = true

variable {p : Peer} {script rest : List Arrival}

theorem IsSteady.tail {a : Arrival} (hp : { p with script := a :: rest }.IsSteady) :
    { p with script := rest }.IsSteady :=
  ⟨fun b hb => hp.arrivals b (List.mem_cons_of_mem _ hb), hp.ending, hp.connected⟩

/-- A piece of which some octets have been read leaves a peer steady. -/
theorem IsSteady.behind {bytes : Bytes} (hp : { p with script := .data bytes :: rest }.IsSteady)
    (limit : Nat) : { p with script :=
      if bytes.length ≤ limit then rest else .data (bytes.drop limit) :: rest }.IsSteady := by
  refine ⟨fun a ha => ?_, hp.ending, hp.connected⟩
  dsimp only at ha
  split at ha
  · exact hp.tail.arrivals a ha
  · rcases List.mem_cons.mp ha with rfl | ha
    · exact .inl ⟨_, rfl⟩
    · exact hp.tail.arrivals a ha

/-- Another state of a peer, in which it takes what is sent to it as before, and the timeline up to
it, on which nothing of note has happened. -/
structure ReadUpTo (p p' : Timed Peer) : Prop where
  intake : p'.subject.intake = p.subject.intake
  remote : p'.subject.remote = p.subject.remote
  limits : p'.timeline.limits = p.timeline.limits
  adds : p.timeline.Adds p'.timeline []

theorem ReadUpTo.of_record {p p' : Peer} {t : Timeline} {count : Nat}
    (hintake : p'.intake = p.intake) (hremote : p'.remote = p.remote)
    (hc : t.cancelAt = none) (hh : t.horizon = none) :
    ReadUpTo ⟨p, t⟩ ⟨p', t.wire (.read count)⟩ :=
  ⟨hintake, hremote, Timeline.limits_record .., Timeline.adds_record hc hh _⟩

/-- A read of a steady peer returns data and leaves it steady, or meets the end. -/
theorem readScript_steady {limit : Nat} {t : Timeline} (hlimit : 0 < limit)
    (hp : { p with script }.IsSteady) (hd : t.limits.deadline = none)
    (hc : t.cancelAt = none) (hh : t.horizon = none) :
    (∃ b bs p', readScript limit p script t = (.ok (b :: bs), p') ∧ p'.subject.IsSteady ∧
        ReadUpTo ⟨p, t⟩ p') ∨
      ∃ p', readScript limit p script t = (.ok [], p') ∧ ReadUpTo ⟨p, t⟩ p' := by
  -- Only data, pauses and the end can come up; the other cases contradict steadiness.
  fun_induction readScript limit p script t with
  | case1 => exact .inr ⟨_, rfl, .of_record rfl rfl hc hh⟩
  | case2 => exact .inr ⟨_, rfl, .of_record rfl rfl hc hh⟩
  | case3 p t _ hsilent => exact absurd hsilent hp.ending
  | case4 p rest t ih => exact ih hp.tail hd hc hh
  | case5 p bytes rest t hne script =>
    obtain ⟨b, bs, rfl⟩ := List.exists_cons_of_ne_nil hne
    obtain ⟨limit, rfl⟩ : ∃ n, limit = n + 1 := ⟨limit - 1, by omega⟩
    exact .inl ⟨b, bs.take limit, _, rfl, hp.behind (limit + 1), .of_record rfl rfl hc hh⟩
  | case8 p ms rest t t' hsleep ih =>
    rw [Timeline.sleep_eq hd hc, Prod.mk.injEq] at hsleep
    obtain rfl := hsleep.2
    have hadds := Timeline.adds_pass hc hh ms
    rcases ih hp.tail hd hc hh with ⟨b, bs, p', hr, hp', hu⟩ | ⟨p', hr, hu⟩
    · exact .inl ⟨b, bs, p', hr, hp', hu.intake, hu.remote, hu.limits, hadds.trans hu.adds⟩
    · exact .inr ⟨p', hr, hu.intake, hu.remote, hu.limits, hadds.trans hu.adds⟩
  | case9 p ms rest t cause t' hsleep =>
    rw [Timeline.sleep_eq hd hc] at hsleep
    cases hsleep
  | case6 | case7 | case10 | case11 | case12 =>
    obtain ⟨_, ha⟩ | ⟨_, ha⟩ := hp.arrivals _ (List.mem_cons_self ..) <;> cases ha

end Peer

/-! ### Clients -/

namespace Client

/-- The client with another state of its peer. -/
def withPeer : Client → Peer → Client
  | .plain _, p => .plain p
  | .secured client, p => .secured { client with state := .established p }

@[simp] theorem peer?_withPeer (c : Client) (p : Peer) : (c.withPeer p).peer? = some p := by
  cases c <;> rfl

variable {c : Timed Client} {client : Client} {p : Peer}

theorem withPeer_eq (hp : client.peer? = some p) : client.withPeer p = client := by
  cases client with
  | plain peer =>
    obtain rfl := Option.some.inj hp
    rfl
  | secured client =>
    obtain ⟨state, remote⟩ := client
    cases state with
    | established session =>
      obtain rfl := Option.some.inj hp
      rfl
    | pending inner negotiator => cases hp
    | failed => cases hp

/-- What is done to either kind of client is done to its peer. -/
theorem onEither_eq {ε α : Type} {refused : ε} {f : Timed Peer → Except ε α × Timed Peer}
    (hp : c.subject.peer? = some p) :
    onEither f (SecuredClient.withSession refused f) c =
      ((f ⟨p, c.timeline⟩).1, (f ⟨p, c.timeline⟩).2.map c.subject.withPeer) := by
  obtain ⟨client, t⟩ := c
  change client.peer? = some p at hp
  rw [← withPeer_eq hp]
  cases client <;> rfl

theorem read_eq (hp : c.subject.peer? = some p) (limit : Nat) :
    read limit c = ((Peer.read limit ⟨p, c.timeline⟩).1,
      (Peer.read limit ⟨p, c.timeline⟩).2.map c.subject.withPeer) :=
  onEither_eq hp

theorem write_eq (hp : c.subject.peer? = some p) (bytes : Bytes) :
    write bytes c = ((Peer.write bytes ⟨p, c.timeline⟩).1,
      (Peer.write bytes ⟨p, c.timeline⟩).2.map c.subject.withPeer) :=
  onEither_eq hp

theorem flush_eq (hp : c.subject.peer? = some p) :
    flush c = ((Peer.flush ⟨p, c.timeline⟩).1,
      (Peer.flush ⟨p, c.timeline⟩).2.map c.subject.withPeer) :=
  onEither_eq hp

theorem close_eq (hp : c.subject.peer? = some p) :
    close c = ((Peer.close ⟨p, c.timeline⟩).1,
      (Peer.close ⟨p, c.timeline⟩).2.map c.subject.withPeer) := by
  obtain ⟨client, t⟩ := c
  change client.peer? = some p at hp
  rw [← withPeer_eq hp]
  cases client <;> rfl

theorem isConnected_eq (hp : client.peer? = some p) : client.isConnected = p.connected := by
  rw [← withPeer_eq hp]
  cases client <;> rfl

theorem remote_withPeer {p' : Peer} (hp : client.peer? = some p) (hremote : p'.remote = p.remote) :
    (client.withPeer p').remote = client.remote := by
  rw [← withPeer_eq hp]
  cases client with
  | plain peer => exact hremote
  | secured client => rfl

/-! ### Serving -/

/-- What a client keeps while it is served: it has a peer that accepts all, at an address, and
`seen` is what has been seen since some moment. -/
structure Since (start : Timeline) (remote : Option Address) (seen : List Sight)
    (c : Timed Client) : Prop where
  peer : ∃ p, c.subject.peer? = some p ∧ p.intake.AcceptsAll
  remote : c.subject.remote = remote
  adds : start.Adds c.timeline seen

variable {start : Timeline} {remote : Option Address} {seen : List Sight}

/-- Another state of the peer, in which it accepts all, on a longer timeline. -/
theorem Since.withPeer {p' : Timed Peer} {seen' : List Sight} (h : Since start remote seen c)
    (hp : c.subject.peer? = some p) (hintake : p'.subject.intake = p.intake)
    (hremote : p'.subject.remote = p.remote) (hadds : c.timeline.Adds p'.timeline seen') :
    Since start remote (seen ++ seen') (p'.map c.subject.withPeer) where
  peer := by
    obtain ⟨q, hq, hall⟩ := h.peer
    obtain rfl : q = p := Option.some.inj (hq.symm.trans hp)
    exact ⟨p'.subject, peer?_withPeer _ _, hintake ▸ hall⟩
  remote := (remote_withPeer hp hremote).trans h.remote
  adds := h.adds.trans hadds

/-- A read is not seen. -/
theorem Since.read {p' : Timed Peer} (h : Since start remote seen c)
    (hp : c.subject.peer? = some p) (hu : Peer.ReadUpTo ⟨p, c.timeline⟩ p') :
    Since start remote seen (p'.map c.subject.withPeer) := by
  have h' := h.withPeer hp hu.intake hu.remote hu.adds
  rwa [List.append_nil] at h'

/-- The regime of the clients that have a steady peer and no deadline, as far as they are read. -/
def steady (start : Timeline) (remote : Option Address) (seen : List Sight) :
    Regime (Timed Client) where
  isOpen c := Since start remote seen c ∧ c.timeline.limits.deadline = none ∧
    ∃ p, c.subject.peer? = some p ∧ p.IsSteady
  isSpent c := Since start remote seen c
  mayStop := False
  read {n c} h hn := by
    obtain ⟨hs, hd, p, hp, hsteady⟩ := h
    rw [show ByteSource.read n c = read n c from rfl, read_eq hp, Peer.read]
    rcases Peer.readScript_steady hn hsteady hd hs.adds.cancelAt' hs.adds.horizon' with
      ⟨b, bs, p', hr, hp', hu⟩ | ⟨p', hr, hu⟩
    · rw [hr]
      have hd' := (congrArg Limits.deadline hu.limits).trans hd
      exact .inl ⟨b, bs, _, rfl, hs.read hp hu, hd', p'.subject, peer?_withPeer _ _, hp'⟩
    · rw [hr]
      exact .inr (.inl ⟨_, rfl, hs.read hp hu⟩)

/-- A client that can be served to the end: what it sends is steady, it accepts all, and nothing
cancels the work for it. -/
structure IsReady (c : Timed Client) : Prop where
  peer : ∃ p, c.subject.peer? = some p ∧ p.IsSteady ∧ p.intake.AcceptsAll
  cancelAt : c.timeline.cancelAt = none
  horizon : c.timeline.horizon = none

/-! ### Clients that send pieces -/

/-- A client that sends pieces one after the other and then ends. -/
def sending (pieces : List Bytes) : Timed Client :=
  ⟨.plain { script := pieces.map .data }, {}⟩

theorem since_sending (pieces : List Bytes) :
    Since {} none [] (sending pieces) where
  peer := ⟨_, rfl, Intake.acceptsAll_default⟩
  remote := rfl
  adds := Timeline.adds_refl rfl rfl

theorem isSteady_sending (pieces : List Bytes) :
    Peer.IsSteady { script := pieces.map .data } where
  arrivals a ha := by
    obtain ⟨bytes, -, rfl⟩ := List.mem_map.mp ha
    exact .inl ⟨bytes, rfl⟩
  ending := nofun
  connected := rfl

theorem upcoming_sending (pieces : List Bytes) :
    (sending pieces).subject.upcoming = pieces.flatten := by
  show Peer.upcomingIn (pieces.map .data) = pieces.flatten
  induction pieces with
  | nil => rfl
  | cons bytes pieces ih => rw [List.map_cons, Peer.upcomingIn, ih, List.flatten_cons]

/-- A client that sends pieces can be read to the end. -/
theorem neverFails_sending (pieces : List Bytes) (capacity : Nat) (charset : LineCharset) :
    (BufferedReader.ofSource (sending pieces) capacity charset).NeverFails :=
  ⟨steady {} none [], id, since_sending pieces, rfl, _, rfl, isSteady_sending pieces⟩

theorem flatten_sending (pieces : List Bytes) (capacity : Nat) (charset : LineCharset) :
    (BufferedReader.ofSource (sending pieces) capacity charset).flatten =
      { rest := pieces.flatten, charset } := by
  rw [← upcoming_sending pieces]
  rfl

end Client

end HttpWire
