import HttpWire.Connection.Basic
import HttpWire.Server.Listener
import HttpWire.Proofs.Wire.Unsecured
import HttpWire.Proofs.Connection.Closing

/-!
# Connections whose negotiation fails

A secured listener hands out secured clients only (`exists_inner_of_arrivals`, `exists_secured`).
If such a client does not shake hands, it has given its peer up, and the connection reports that and
closes what can do nothing any more: it begins no exchange, and behind the negotiation nothing
happens to the peer (`run_of_unsecured`).

So a peer that does not negotiate a session is served nothing, whether its client is used by a
connection or by any other sequence of calls (`nothing_served_without_session`).
-/

namespace HttpWire

/-! ### What a secured listener hands out -/

namespace Listener

variable {negotiator : Negotiator} {m now : Nat} {client : Client}

theorem mem_incoming_of_arrivals {incoming : List Incoming}
    (h : (m, .ok client) ∈ arrivals now incoming) : .client client ∈ incoming := by
  induction incoming generalizing now with
  | nil => cases h
  | cons first rest ih =>
    cases first with
    | client c =>
      rcases List.mem_cons.mp h with heq | h
      · cases heq
        exact List.mem_cons_self
      · exact List.mem_cons_of_mem _ (ih h)
    | fault e =>
      rcases List.mem_cons.mp h with heq | h
      · cases heq
      · exact List.mem_cons_of_mem _ (ih h)
    | wait ms => exact List.mem_cons_of_mem _ (ih h)

/-- A secured listener hands out the clients of the listener inside it, secured. -/
theorem exists_inner_of_arrivals {l : Listener}
    (h : (m, .ok client) ∈ arrivals now (l.secure negotiator).incoming) :
    ∃ inner, .client inner ∈ l.incoming ∧ client = secureClient negotiator inner := by
  obtain ⟨i, hmem, hi⟩ := List.mem_map.mp (mem_incoming_of_arrivals h)
  cases i with
  | client inner => exact ⟨inner, hmem, (Incoming.client.inj hi).symm⟩
  | fault e => cases hi
  | wait ms => cases hi

theorem exists_secured (negotiator : Negotiator) (inner : Client) :
    ∃ secured, secureClient negotiator inner = .secured secured := by
  cases inner with
  | plain peer => exact ⟨_, rfl⟩
  | secured secured => exact ⟨secured.securedBy negotiator, rfl⟩

end Listener

/-! ### Handshakes that fail -/

namespace Connection

variable {υ : Type} {s : Service} {c : Connection υ} {secured : SecuredClient}

/-- The limits under which a connection shakes hands. -/
def handshakeLimits (s : Service) (t : Timeline) : Limits :=
  { deadline := some (t.now + s.settings.handshakeTimeout) }

/-- A secured client that does not shake hands has given its peer up.  Nothing else of the
connection has changed, and the timeline is as the negotiation has left it. -/
theorem shakeHands_of_unsecured (hclient : c.client.subject = .secured secured)
    (hfails : (c.shakeHands s).1 ≠ .ok ()) :
    ∃ t, (c.shakeHands s).2 = c.withClient ⟨.secured { secured with state := .failed }, t⟩ ∧
      ∀ inner negotiator, secured.state = .pending inner negotiator →
        t = (negotiator ⟨inner, c.timeline.under (handshakeLimits s c.timeline)⟩).2.under {} := by
  obtain ⟨⟨⟨client, t⟩, _, _, _, _, _, _⟩, _, _, _⟩ := c
  obtain rfl : client = .secured secured := hclient
  generalize hhands : SecuredClient.handshake ⟨secured, t.under (handshakeLimits s t)⟩ = x
  have hsubject : x.2.subject = { secured with state := .failed } := by
    rw [← hhands]
    exact SecuredClient.subject_of_handshake hfails
  refine ⟨x.2.timeline.under {}, ?_, ?_⟩
  · rw [← hsubject, ← hhands]
    rfl
  · rintro inner negotiator hpending
    rw [← hhands, SecuredClient.timeline_of_handshake hpending]
    rfl

variable [VersionResolver υ]

/-- **A connection with a secured client that does not shake hands serves nothing.**  It reports
that and has changed in nothing else but in the client, which has given its peer up. -/
theorem run_of_unsecured (hclient : c.client.subject = .secured secured)
    (hfails : (c.shakeHands s).1 ≠ .ok ()) :
    ∃ t error, (c.shakeHands s).2 = c.withClient ⟨.secured { secured with state := .failed }, t⟩ ∧
      (run s c).2 = (c.shakeHands s).2.notify (.handshakeFailed error) ∧
      (t.horizon = none → (run s c).1 = .closed) ∧
      ∀ inner negotiator, secured.state = .pending inner negotiator →
        t = (negotiator ⟨inner, c.timeline.under (handshakeLimits s c.timeline)⟩).2.under {} := by
  obtain ⟨t, hshaken, hleft⟩ := shakeHands_of_unsecured hclient hfails
  -- Closing a client that has given its peer up does nothing.
  have hend (error : ServeError) (shaken : Connection υ)
      (h : shaken = c.withClient ⟨.secured { secured with state := .failed }, t⟩) :
      (close (shaken.notify (.handshakeFailed error))).2 =
          shaken.notify (.handshakeFailed error) ∧
        (t.horizon = none → (close (shaken.notify (.handshakeFailed error))).1 = .closed) := by
    subst h
    refine ⟨rfl, fun hhorizon => closed_of_horizon ?_⟩
    exact (Timeline.later_record t (.notice (.handshakeFailed error))).horizon.trans hhorizon
  unfold run
  generalize c.shakeHands s = x at hfails hshaken
  obtain ⟨result, shaken⟩ := x
  rcases result with (e | cause) | _
  · exact ⟨t, _, hshaken, (hend _ _ hshaken).1, (hend _ _ hshaken).2, hleft⟩
  · exact ⟨t, _, hshaken, (hend _ _ hshaken).1, (hend _ _ hshaken).2, hleft⟩
  · exact absurd rfl hfails

end Connection

/-! ### Without a session -/

open SecuredClient in
/-- **Nothing is served without a session.**  Whatever the negotiation does, and whatever is asked
of a secured client in what order: for as long as no handshake completes, the client refuses what
needs a session and leaves the peer alone, and it keeps the address of the peer.  Behind a handshake
that has failed or was abandoned it is not connected, handshakes are refused and closing succeeds,
and nothing changes the client any more.

So a connection with a client of a secured listener that does not shake hands begins no exchange.
It reports the failure; in everything but the client it is as it was at the beginning, and all that
was done to the peer was done by the negotiation. -/
theorem nothing_served_without_session :
    (∀ (inner : Peer) (negotiator : Negotiator) (t : Timeline) (calls : List SecuredCall),
      (∀ m ∈ made ⟨ofPeer inner negotiator, t⟩ calls, ¬ m.Completes) →
      ∀ earlier m later, made ⟨ofPeer inner negotiator, t⟩ calls = earlier ++ m :: later →
        (m.use.NeedsSession →
          m.answer.error? = some noSession ∧ noSession.kind = .notConnected ∧
            m.rest = m.start) ∧
        m.start.subject.remote = inner.remote ∧ m.rest.subject.remote = inner.remote ∧
        ((∃ m' ∈ earlier, m'.use = .handshake) →
          m.start.subject.isConnected = false ∧ m.rest = m.start ∧
            (m.use = .isConnected → m.answer = .connected false) ∧
            (m.use = .handshake → m.answer = .shaken (.error (.fault alreadyFailed))) ∧
            (m.use = .close → m.answer = .done (.ok ())))) ∧
    ∀ (l : Listener) (negotiator : Negotiator) (now m : Nat) (client : Client),
      (m, .ok client) ∈ Listener.arrivals now (l.secure negotiator).incoming →
      ∃ inner, .client inner ∈ l.incoming ∧ client = Listener.secureClient negotiator inner ∧
        ∀ {υ : Type} [VersionResolver υ] (s : Service) (versions : υ) (t : Timeline),
          let c : Connection υ := .ofClient s.settings versions ⟨client, t⟩
          (c.shakeHands s).1 ≠ .ok () →
          ∃ (failed : SecuredClient) (negotiated : Timeline) (error : ServeError),
            failed.state = .failed ∧
            (c.run s).2 = c.withClient
              ⟨.secured failed, negotiated.record (.notice (.handshakeFailed error))⟩ ∧
            (c.run s).2.exchanges = 0 ∧
            (negotiated.horizon = none → (c.run s).1 = .closed) ∧
            ∀ peer, inner = .plain peer →
              failed.remote = peer.remote ∧
              negotiated =
                (negotiator ⟨peer, t.under (Connection.handshakeLimits s t)⟩).2.under {} := by
  constructor
  · intro inner negotiator t calls hnever earlier m later hsplit
    obtain ⟨hstart, hrest, happly, hfailed⟩ :=
      unsecured_of_made (c := ⟨ofPeer inner negotiator, t⟩) (unsecured_ofPeer ..) hnever hsplit
    refine ⟨fun hneeds => ?_, hstart.remote, hrest.remote, fun hearlier => ?_⟩
    · have hrefused := apply_of_needsSession hstart.isEstablished hneeds
      rw [happly] at hrefused
      exact ⟨hrefused.1, rfl, hrefused.2⟩
    · have hstate := hfailed (.inr hearlier)
      rw [apply_of_failed hstate] at happly
      obtain ⟨hanswer, hsame⟩ := Prod.mk.inj happly
      refine ⟨isConnected_of_failed hstate, hsame.symm, ?_, ?_, ?_⟩
      all_goals
        intro huse
        rw [← hanswer, huse]
        rfl
  · intro l negotiator now m client harrives
    obtain ⟨inner, hmem, rfl⟩ := Listener.exists_inner_of_arrivals harrives
    refine ⟨inner, hmem, rfl, ?_⟩
    intro υ _ s versions t c hfails
    obtain ⟨secured, hsecured⟩ := Listener.exists_secured negotiator inner
    obtain ⟨negotiated, error, hshaken, hrun, hclosed, hleft⟩ :=
      Connection.run_of_unsecured (c := c) hsecured hfails
    have hrun' : (c.run s).2 = c.withClient ⟨.secured { secured with state := .failed },
        negotiated.record (.notice (.handshakeFailed error))⟩ := by
      rw [hrun, hshaken]
      rfl
    refine ⟨_, negotiated, error, rfl, hrun', ?_, hclosed, ?_⟩
    · rw [hrun']
      rfl
    · rintro peer rfl
      cases hsecured
      exact ⟨rfl, hleft peer negotiator rfl⟩

/-- A peer that sends a request without any negotiation. -/
def unsecuredRequest : Peer :=
  { script := [.data (Utf8.encode "GET / HTTP/1.1\r\n\r\n".toList)] }

/-- An acceptor turns such a peer away. -/
theorem awaitRecord_unsecuredRequest (t : Timeline) :
    (Negotiator.awaitRecord ⟨unsecuredRequest, t⟩).1 = .failed Negotiator.notARecord := by
  rw [Negotiator.awaitRecord, Negotiator.awaitRecordFrom]
  rfl

/-- Reading before the negotiation that the peer fails, and writing behind it, are refused, and a
connection begins no exchange with the peer. -/
theorem nothing_served_unsecuredRequest :
    (∀ m ∈ SecuredClient.made ⟨.ofPeer unsecuredRequest Negotiator.awaitRecord, {}⟩
        [{ use := .read 8 }, { use := .handshake }, { use := .write [1] }],
      m.use.NeedsSession → m.answer.error? = some SecuredClient.noSession) ∧
    (Connection.run {} (.ofClient {} TokenParser.mk
      ⟨.secured (.ofPeer unsecuredRequest Negotiator.awaitRecord), {}⟩)).2.exchanges = 0 := by
  have hnone (t : Timeline) (session : Peer) :
      (Negotiator.awaitRecord ⟨unsecuredRequest, t⟩).1 ≠ .established session := by
    rw [awaitRecord_unsecuredRequest]
    exact Negotiation.noConfusion
  have hfails (t : Timeline) := SecuredClient.handshake_ne_ok
    (c := ⟨.ofPeer unsecuredRequest Negotiator.awaitRecord, t⟩) rfl (hnone t)
  constructor
  · intro m hm
    obtain ⟨earlier, later, hsplit⟩ := List.append_of_mem hm
    have hnever : ∀ m ∈ SecuredClient.made ⟨.ofPeer unsecuredRequest Negotiator.awaitRecord, {}⟩
        [{ use := .read 8 }, { use := .handshake }, { use := .write [1] }], ¬ m.Completes := by
      simp only [SecuredClient.made, List.forall_mem_cons]
      refine ⟨fun h => SecuredUse.noConfusion h.1, fun h => hfails {} ?_,
        fun h => SecuredUse.noConfusion h.1, fun _ hm => absurd hm List.not_mem_nil⟩
      exact SecuredAnswer.shaken.inj h.2
    intro hneeds
    exact ((nothing_served_without_session.1 _ _ _ _ hnever _ _ _ hsplit).1 hneeds).1
  · obtain ⟨_, _, _, hserved⟩ := nothing_served_without_session.2
      { address := .ok ⟨.four 127 0 0 1, 443⟩, incoming := [.client (.plain unsecuredRequest)] }
      Negotiator.awaitRecord 0 0 _ List.mem_cons_self
    obtain ⟨_, _, _, _, _, hexchanges, _⟩ := hserved {} TokenParser.mk {} (hfails _)
    exact hexchanges

end HttpWire
