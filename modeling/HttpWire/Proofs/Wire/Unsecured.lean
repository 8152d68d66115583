import HttpWire.Wire.Secured

/-!
# Secured clients without a session

`SecuredUse` lists what can be asked of a secured client, and `SecuredClient.made` is a record of
calls: each use with the client in front of it, the answer, and the client behind it.

A client without a session is still waiting for its negotiation, with its peer as it was given, or
has given the peer up (`Unsecured`).  It refuses whatever needs a session and changes nothing
(`apply_of_needsSession`).  A negotiation that comes to no session ends in the second state
(`subject_of_handshake`), in which every use has one answer and changes nothing (`apply_of_failed`).
So a client stays without a session for as long as no handshake completes (`unsecured_of_made`).
-/

namespace HttpWire

/-! ### Uses and answers -/

/-- Something that is asked of a secured client. -/
inductive SecuredUse
  | handshake
  | read (limit : Nat)
  | write (bytes : Bytes)
  | flush
  | shutdown
  | isConnected
  | close
deriving DecidableEq

/-- What a secured client answers. -/
inductive SecuredAnswer
  | shaken (result : Except (Stop IoError) Unit)
  | octets (result : Except (Stop IoError) Bytes)
  | count (result : Except IoError Nat)
  | done (result : Except IoError Unit)
  | connected (answer : Bool)

/-- The error that an answer reports. -/
def SecuredAnswer.error? : SecuredAnswer → Option IoError
  | .shaken (.error (.fault e)) => some e
  | .octets (.error (.fault e)) => some e
  | .count (.error e) => some e
  | .done (.error e) => some e
  | _ => none

namespace SecuredUse

/-- Whether something can be done by a session only. -/
def NeedsSession : SecuredUse → Prop
  | .read _ | .write _ | .flush | .shutdown => True
  | .handshake | .isConnected | .close => False

/-- Asks a client. -/
def apply (use : SecuredUse) (c : Timed SecuredClient) : SecuredAnswer × Timed SecuredClient :=
  match use with
  | .handshake => ((SecuredClient.handshake c).map .shaken id)
  | .read limit => (SecuredClient.read limit c).map .octets id
  | .write bytes => (SecuredClient.write bytes c).map .count id
  | .flush => (SecuredClient.flush c).map .done id
  | .shutdown => (SecuredClient.shutdown c).map .done id
  | .isConnected => (.connected c.subject.isConnected, c)
  | .close => (SecuredClient.close c).map .done id

/-- What a client answers that has given its peer up. -/
def answerOfFailed : SecuredUse → SecuredAnswer
  | .handshake => .shaken (.error (.fault SecuredClient.alreadyFailed))
  | .read _ => .octets (.error (.fault SecuredClient.noSession))
  | .write _ => .count (.error SecuredClient.noSession)
  | .flush | .shutdown => .done (.error SecuredClient.noSession)
  | .isConnected => .connected false
  | .close => .done (.ok ())

end SecuredUse

/-- A use of a client, and what happens in front of it. -/
structure SecuredCall where
  use : SecuredUse
  between : Timeline → Timeline := id

/-- A use that was made: the client in front of it, the answer, and the client behind it. -/
structure SecuredMade where
  use : SecuredUse
  start : Timed SecuredClient
  answer : SecuredAnswer
  rest : Timed SecuredClient

/-- Whether it was a handshake that came to a session. -/
def SecuredMade.Completes (m : SecuredMade) : Prop :=
  m.use = .handshake ∧ m.answer = .shaken (.ok ())

/-- Makes a call. -/
def SecuredCall.make (call : SecuredCall) (c : Timed SecuredClient) : SecuredMade :=
  let start : Timed SecuredClient := ⟨c.subject, call.between c.timeline⟩
  { use := call.use, start, answer := (call.use.apply start).1, rest := (call.use.apply start).2 }

namespace SecuredClient

/-- The calls as they are made, each with the client that the one before has left. -/
def made (c : Timed SecuredClient) : List SecuredCall → List SecuredMade
  | [] => []
  | call :: calls => call.make c :: made (call.make c).rest calls

/-! ### Clients without a session -/

/-- A client that was made for a peer and has had no session: the peer is as it was given, or is
given up. -/
structure Unsecured (inner : Peer) (negotiator : Negotiator) (c : SecuredClient) : Prop where
  remote : c.remote = inner.remote
  state : c.state = .pending inner negotiator ∨ c.state = .failed

variable {inner : Peer} {negotiator : Negotiator} {c : Timed SecuredClient} {use : SecuredUse}

theorem unsecured_ofPeer (inner : Peer) (negotiator : Negotiator) :
    Unsecured inner negotiator (ofPeer inner negotiator) :=
  ⟨rfl, .inl rfl⟩

theorem Unsecured.isEstablished {c : SecuredClient} (h : Unsecured inner negotiator c) :
    c.isEstablished = false := by
  obtain ⟨state, remote⟩ := c
  obtain ⟨-, rfl | rfl⟩ := h <;> rfl

/-- Without a session, what needs one is refused and changes nothing. -/
theorem apply_of_needsSession (h : c.subject.isEstablished = false) (hneeds : use.NeedsSession) :
    (use.apply c).1.error? = some noSession ∧ (use.apply c).2 = c := by
  obtain ⟨⟨state, remote⟩, t⟩ := c
  cases state with
  | established session => cases h
  | pending | failed =>
    cases use with
    | read | write | flush | shutdown => exact ⟨rfl, rfl⟩
    | handshake | isConnected | close => exact hneeds.elim

theorem isConnected_of_failed {c : SecuredClient} (h : c.state = .failed) :
    c.isConnected = false := by
  rw [isConnected, h]

/-- A client that has given its peer up has one answer for each use, and stays as it is. -/
theorem apply_of_failed (h : c.subject.state = .failed) :
    use.apply c = (use.answerOfFailed, c) := by
  obtain ⟨⟨state, remote⟩, t⟩ := c
  obtain rfl : state = .failed := h
  cases use <;> rfl

/-- A negotiation that comes to no session gives the peer up. -/
theorem subject_of_handshake (hfails : (handshake c).1 ≠ .ok ()) :
    (handshake c).2.subject = { c.subject with state := .failed } := by
  obtain ⟨⟨state, remote⟩, t⟩ := c
  cases state with
  | established session => exact absurd rfl hfails
  | failed => rfl
  | pending inner negotiator =>
    unfold handshake at hfails ⊢
    dsimp only at hfails ⊢
    generalize negotiator ⟨inner, t⟩ = x at hfails ⊢
    obtain ⟨negotiation, t'⟩ := x
    cases negotiation with
    | established session => exact absurd rfl hfails
    | failed e => rfl
    | abandoned cause => rfl

/-- A handshake completes only if the negotiation comes to a session. -/
theorem handshake_ne_ok (h : c.subject.state = .pending inner negotiator)
    (hnone : ∀ session, (negotiator ⟨inner, c.timeline⟩).1 ≠ .established session) :
    (handshake c).1 ≠ .ok () := by
  obtain ⟨⟨state, remote⟩, t⟩ := c
  obtain rfl : state = .pending inner negotiator := h
  unfold handshake
  dsimp only at hnone ⊢
  generalize negotiator ⟨inner, t⟩ = x at hnone ⊢
  obtain ⟨negotiation, t'⟩ := x
  cases negotiation with
  | established session => exact absurd rfl (hnone session)
  | failed e =>
    intro hok
    cases hok
  | abandoned cause =>
    intro hok
    cases hok

/-- The timeline is as the negotiation has left it. -/
theorem timeline_of_handshake (h : c.subject.state = .pending inner negotiator) :
    (handshake c).2.timeline = (negotiator ⟨inner, c.timeline⟩).2 := by
  obtain ⟨⟨state, remote⟩, t⟩ := c
  obtain rfl : state = .pending inner negotiator := h
  unfold handshake
  dsimp only
  generalize negotiator ⟨inner, t⟩ = x
  obtain ⟨negotiation, t'⟩ := x
  cases negotiation <;> rfl

/-- A use that does not complete a handshake leaves a client without a session. -/
theorem unsecured_apply (h : Unsecured inner negotiator c.subject)
    (hfails : use = .handshake → (handshake c).1 ≠ .ok ()) :
    Unsecured inner negotiator (use.apply c).2.subject := by
  have hrefused (hneeds : use.NeedsSession) :
      Unsecured inner negotiator (use.apply c).2.subject := by
    rw [(apply_of_needsSession h.isEstablished hneeds).2]
    exact h
  cases use with
  | handshake =>
    have hstate := subject_of_handshake (hfails rfl)
    exact ⟨(congrArg remote hstate).trans h.remote, .inr (congrArg SecuredClient.state hstate)⟩
  | isConnected => exact h
  | close =>
    obtain ⟨⟨state, remote⟩, t⟩ := c
    obtain ⟨hremote, rfl | rfl⟩ := h
    · -- Closing the peer is seen on the timeline only.
      refine ⟨hremote, .inl ?_⟩
      show SecuredState.pending (Peer.close ⟨inner, t⟩).2.subject negotiator = _
      unfold Peer.close
      dsimp only
      split <;> rfl
    · exact ⟨hremote, .inr rfl⟩
  | read | write | flush | shutdown => exact hrefused trivial

/-! ### Runs of calls -/

/-- A client stays without a session for as long as no handshake completes, and behind a handshake
that has not completed the peer is given up. -/
theorem unsecured_of_made {calls : List SecuredCall} (h : Unsecured inner negotiator c.subject)
    (hnever : ∀ m ∈ made c calls, ¬ m.Completes) {earlier later : List SecuredMade}
    {m : SecuredMade} (hsplit : made c calls = earlier ++ m :: later) :
    Unsecured inner negotiator m.start.subject ∧ Unsecured inner negotiator m.rest.subject ∧
      m.use.apply m.start = (m.answer, m.rest) ∧
      ((c.subject.state = .failed ∨ ∃ m' ∈ earlier, m'.use = .handshake) →
        m.start.subject.state = .failed) := by
  induction calls generalizing c earlier with
  | nil => cases earlier <;> cases hsplit
  | cons call calls ih =>
    rw [made] at hnever hsplit
    obtain ⟨hfirst, hnever⟩ := List.forall_mem_cons.mp hnever
    have hfails : call.use = .handshake → (handshake (call.make c).start).1 ≠ .ok () := by
      intro huse hok
      refine hfirst ⟨huse, ?_⟩
      show (call.use.apply (call.make c).start).1 = _
      rw [huse]
      exact congrArg SecuredAnswer.shaken hok
    have hstart : Unsecured inner negotiator (call.make c).start.subject := h
    have hrest := unsecured_apply hstart hfails
    cases earlier with
    | nil =>
      obtain ⟨rfl, -⟩ := List.cons.inj hsplit
      refine ⟨hstart, hrest, rfl, ?_⟩
      rintro (hfailed | ⟨m', hm', -⟩)
      · exact hfailed
      · cases hm'
    | cons first earlier =>
      obtain ⟨hfirst, hlater⟩ := List.cons.inj hsplit
      subst hfirst
      obtain ⟨hm, hbehind, hanswer, hfailed⟩ := ih hrest hnever hlater
      refine ⟨hm, hbehind, hanswer, ?_⟩
      rintro (hbefore | ⟨m', hm', huse⟩)
      · apply hfailed
        left
        have hsame := @apply_of_failed (call.make c).start call.use hbefore
        exact (congrArg (·.2.subject.state) hsame).trans hbefore
      · rcases List.mem_cons.mp hm' with rfl | hlater
        · apply hfailed
          left
          have hstate := subject_of_handshake (hfails huse)
          show (call.use.apply (call.make c).start).2.subject.state = .failed
          rw [show call.use = .handshake from huse]
          exact congrArg SecuredClient.state hstate
        · exact hfailed (.inr ⟨m', hlater, huse⟩)

end SecuredClient

end HttpWire
