import HttpWire.Reading.Buffered
import HttpWire.Wire.Client

/-!
# What a source will deliver

`StreamSource.upcoming` is the string that the reads of a source return piece by piece, up to the
first read that returns nothing.  How the string is cut into pieces, and how long each piece is
waited for, is not part of it.  A read that is stopped is no statement about the string.

A peer's string is made of the data in front of the first arrival that is neither data nor a pause
nor the peer's going away; the string of a client is that of the peer it reads from.

A `Regime` says what is known of the states that reads lead to.  A source never fails if it is in a
regime that admits no stop.
-/

namespace HttpWire

/-- A source whose reads return the octets of a string in their order. -/
class StreamSource (σ : Type) [ByteSource σ] where
  /-- The octets that reads return up to the first one that returns nothing. -/
  upcoming : σ → Bytes
  upcoming_of_read : ∀ {n s b bs s'}, ByteSource.read n s = (.ok (b :: bs), s') →
    upcoming s = b :: bs ++ upcoming s'
  upcoming_of_end : ∀ {n s s'}, 0 < n → ByteSource.read n s = (.ok [], s') → upcoming s = []

/-- Knowledge of the states of a source: a read from an open state leaves an open state if it
returns something and a spent one if it returns nothing.  It is stopped only if the regime admits
that, and then nothing more is known. -/
structure Regime (σ : Type) [ByteSource σ] where
  isOpen : σ → Prop
  isSpent : σ → Prop
  /-- Whether a read may be stopped. -/
  mayStop : Prop
  read : ∀ {n s}, isOpen s → 0 < n →
    (∃ b bs s', ByteSource.read n s = (.ok (b :: bs), s') ∧ isOpen s') ∨
      (∃ s', ByteSource.read n s = (.ok [], s') ∧ isSpent s') ∨
        mayStop ∧ ∃ e s', ByteSource.read n s = (.error e, s')

/-- The regime of all sources, in which nothing is known. -/
def Regime.any (σ : Type) [ByteSource σ] : Regime σ where
  isOpen _ := True
  isSpent _ := True
  mayStop := True
  read {n s} _ _ := by
    rcases hr : ByteSource.read n s with ⟨e | _ | ⟨b, bs⟩, s'⟩
    · exact .inr (.inr ⟨trivial, e, s', rfl⟩)
    · exact .inr (.inl ⟨s', rfl, trivial⟩)
    · exact .inl ⟨b, bs, s', rfl, trivial⟩

/-! ### Peers -/

namespace Peer

/-- The octets of the arrivals in front of the first read that does not return data. -/
def upcomingIn : List Arrival → Bytes
  | .data bytes :: rest => bytes ++ upcomingIn rest
  | .pause _ :: rest => upcomingIn rest
  | .disconnect :: rest => upcomingIn rest
  | _ => []

/-- The octets that reads of a peer return. -/
def upcoming (p : Peer) : Bytes :=
  upcomingIn p.script

theorem ne_ok_readNever (p : Peer) (t : Timeline) (bs : Bytes) (p' : Timed Peer) :
    p.readNever t ≠ (.ok bs, p') := by
  unfold readNever
  split <;> simp

/-- A read that returns data takes it from the front of the string. -/
theorem upcomingIn_of_readScript {limit : Nat} {p : Peer} {script : List Arrival} {t : Timeline}
    {b : UInt8} {bs : Bytes} {p' : Timed Peer}
    (h : readScript limit p script t = (.ok (b :: bs), p')) :
    upcomingIn script = b :: bs ++ p'.subject.upcoming := by
  fun_induction readScript limit p script t with
  | case1 => simp [readNothing] at h
  | case2 => simp [readNothing] at h
  | case3 => exact absurd h (ne_ok_readNever _ _ _ _)
  | case4 p rest t ih => rw [← ih h]; rfl
  | case5 p bytes rest t hne script =>
    simp only [Prod.mk.injEq, Except.ok.injEq] at h
    obtain ⟨hbs, rfl⟩ := h
    rw [← hbs]
    simp only [upcomingIn, upcoming, script]
    split
    · next hle => rw [List.take_of_length_le hle]
    · rw [upcomingIn, ← List.append_assoc, List.take_append_drop]
  | case6 => simp [readNothing] at h
  | case7 => simp at h
  | case8 p ms rest t t' _ ih => rw [← ih h]; rfl
  | case9 => simp at h
  | case10 p rest t ih => rw [← ih h]; rfl
  | case11 => exact absurd h (ne_ok_readNever _ _ _ _)
  | case12 => exact absurd h (ne_ok_readNever _ _ _ _)

/-- A read that returns nothing is made at the end of the string. -/
theorem upcomingIn_of_readScript_nil {limit : Nat} {p : Peer} {script : List Arrival} {t : Timeline}
    {p' : Timed Peer} (hl : 0 < limit) (h : readScript limit p script t = (.ok [], p')) :
    upcomingIn script = [] := by
  fun_induction readScript limit p script t with
  | case1 => rfl
  | case2 => rfl
  | case3 => rfl
  | case4 p rest t ih => exact ih h
  | case5 p bytes rest t hne script =>
    simp only [Prod.mk.injEq, Except.ok.injEq, List.take_eq_nil_iff] at h
    rcases h.1 with h0 | hb
    · omega
    · exact absurd hb hne
  | case6 => rfl
  | case7 => rfl
  | case8 p ms rest t t' _ ih => exact ih h
  | case9 => simp at h
  | case10 p rest t ih => exact ih h
  | case11 => rfl
  | case12 => rfl

theorem upcoming_of_read {n : Nat} {p p' : Timed Peer} {b : UInt8} {bs : Bytes}
    (h : read n p = (.ok (b :: bs), p')) :
    p.subject.upcoming = b :: bs ++ p'.subject.upcoming :=
  upcomingIn_of_readScript h

theorem upcoming_of_end {n : Nat} {p p' : Timed Peer} (hn : 0 < n)
    (h : read n p = (.ok [], p')) : p.subject.upcoming = [] :=
  upcomingIn_of_readScript_nil hn h

instance : StreamSource (Timed Peer) where
  upcoming p := p.subject.upcoming
  upcoming_of_read := upcoming_of_read
  upcoming_of_end := upcoming_of_end

end Peer

/-! ### Clients -/

namespace Client

/-- The peer that a client reads from and writes to, if there is a way to it. -/
def peer? : Client → Option Peer
  | .plain peer => some peer
  | .secured client =>
    match client.state with
    | .established session => some session
    | _ => none

/-- The octets that reads of a client return. -/
def upcoming (c : Client) : Bytes :=
  (c.peer?.map Peer.upcoming).getD []

/-- What returns something has been read from the client's peer. -/
theorem read_ok {n : Nat} {c c' : Timed Client} {bs : Bytes} (h : read n c = (.ok bs, c')) :
    ∃ p p', c.subject.peer? = some p ∧ Peer.read n ⟨p, c.timeline⟩ = (.ok bs, p') ∧
      c'.subject.peer? = some p'.subject ∧ c'.timeline = p'.timeline := by
  obtain ⟨client, t⟩ := c
  cases client with
  | plain p =>
    simp only [read, onEither, Prod.mk.injEq] at h
    obtain ⟨h, rfl⟩ := h
    exact ⟨p, _, rfl, Prod.ext h rfl, rfl, rfl⟩
  | secured client =>
    obtain ⟨state, remote⟩ := client
    cases state with
    | established session =>
      simp only [read, onEither, SecuredClient.read, SecuredClient.withSession, Prod.mk.injEq] at h
      obtain ⟨h, rfl⟩ := h
      exact ⟨session, _, rfl, Prod.ext h rfl, rfl, rfl⟩
    | pending inner negotiator =>
      simp [read, onEither, SecuredClient.read, SecuredClient.withSession] at h
    | failed => simp [read, onEither, SecuredClient.read, SecuredClient.withSession] at h

instance : StreamSource (Timed Client) where
  upcoming c := c.subject.upcoming
  upcoming_of_read h := by
    obtain ⟨p, p', hp, hr, hp', -⟩ := read_ok h
    simpa [upcoming, hp, hp'] using Peer.upcoming_of_read hr
  upcoming_of_end hn h := by
    obtain ⟨p, p', hp, hr, -⟩ := read_ok h
    simpa [upcoming, hp] using Peer.upcoming_of_end hn hr

end Client

end HttpWire
