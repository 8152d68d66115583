import HttpWire.Proofs.Connection.Log
import HttpWire.Proofs.Lists

/-!
# What a client gets of an outbox

An outbox is used by calls in any order, also behind one that has failed.  `Sending` says what
sending can come to: nothing was waiting, the octets were cut off and wait as before, the client
accepted all of them and did not take delivery, or it took delivery.

Two kinds of calls do harm that no later call undoes (`OutboxCall.Spoils`): a reply that cannot be
written leaves its front among the octets that wait, and octets of which the client has accepted a
part only will be offered again from the first one.  `sent_once` says that without such a call, and
only then, a client has got each reply once when sending succeeds.
-/

namespace HttpWire

/-! ### Sending -/

/-- What sending octets that wait can come to: the answer, the octets that wait behind it, and what
has happened in between. -/
inductive Sending (waiting : Bytes) :
    Except SendError Unit → Bytes → List (Nat × Event) → Prop
  | nothing (hnil : waiting = []) : Sending waiting (.ok ()) [] []
  | cut {error es rest} (hrest : rest ≠ []) (hoctets : waiting = octetsIn es ++ rest) :
    Sending waiting (.error error) waiting es
  /-- The client has accepted the octets, but could not take delivery. -/
  | stranded {error es} (hoctets : octetsIn es = waiting) : Sending waiting (.error error) [] es
  | delivered {ws m} (hoctets : octetsIn ws = waiting) :
    Sending waiting (.ok ()) [] (ws ++ [(m, .wire .flushed)])

theorem octetsIn_concat {e : Nat × Event} (h : e.2.IsUnseen) (es : List (Nat × Event)) :
    octetsIn (es ++ [e]) = octetsIn es := by
  have hnil : octetsIn [e] = [] := octetsIn_eq_nil (List.forall_mem_singleton.mpr h)
  rw [octetsIn_append, hnil, List.append_nil]

namespace Sending

variable {waiting waiting' : Bytes} {answer : Except SendError Unit} {es : List (Nat × Event)}

/-- Unless a part is accepted and all wait again, no octet is lost or doubled. -/
theorem octetsIn_append (h : Sending waiting answer waiting' es)
    (hno : ¬ (waiting' ≠ [] ∧ octetsIn es ≠ [])) : octetsIn es ++ waiting' = waiting := by
  cases h with
  | nothing hnil => exact hnil.symm
  | @cut _ _ rest hrest hoctets =>
    have hne : waiting ≠ [] := by
      rw [hoctets]
      exact List.append_ne_nil_of_right_ne_nil _ hrest
    have hnil : octetsIn es = [] := Classical.not_not.mp fun h => hno ⟨hne, h⟩
    rw [hnil, List.nil_append]
  | stranded hoctets => rw [List.append_nil, hoctets]
  | delivered hoctets =>
    have hunseen : (Event.wire .flushed).IsUnseen := rfl
    rw [List.append_nil, octetsIn_concat hunseen, hoctets]

theorem length_lt (h : Sending waiting answer waiting' es) (hne : waiting' ≠ [])
    (hsome : octetsIn es ≠ []) : waiting.length < (octetsIn es).length + waiting'.length := by
  cases h with
  | nothing => exact absurd rfl hne
  | cut => exact Nat.lt_add_of_pos_left (List.length_pos_iff.mpr hsome)
  | stranded => exact absurd rfl hne
  | delivered => exact absurd rfl hne

theorem waiting_of_ok (h : Sending waiting (.ok ()) waiting' es) : waiting' = [] := by
  cases h with
  | nothing | delivered => rfl

/-- Nothing waits any more if nothing has waited, or all was accepted. -/
theorem emptied (h : Sending waiting answer waiting' es) (hnil : waiting' = []) :
    waiting = [] ∧ es = [] ∨ answer ≠ .ok () ∨ ∃ ws m, es = ws ++ [(m, .wire .flushed)] := by
  cases h with
  | nothing hbefore => exact .inl ⟨hbefore, rfl⟩
  | cut | stranded => exact .inr (.inl (by simp))
  | @delivered ws m => exact .inr (.inr ⟨ws, m, rfl⟩)

end Sending

/-- Without a way to the peer nothing is accepted. -/
theorem Client.write_of_noPeer {c : Timed Client} (hp : c.subject.peer? = none) (bytes : Bytes) :
    write bytes c = (.error SecuredClient.noSession, c) := by
  obtain ⟨client, t⟩ := c
  cases client with
  | plain peer => cases hp
  | secured client =>
    obtain ⟨state, remote⟩ := client
    cases state with
    | established session => cases hp
    | pending | failed => rfl

theorem Outbox.sending_send (box : Outbox) (c : Timed Client) :
    ∃ es, c.timeline.Later (box.send c).2.2.timeline es ∧
      Sending box.waiting (box.send c).1 (box.send c).2.1.waiting es := by
  obtain ⟨waiting⟩ := box
  rw [send]
  cases waiting with
  | nil => exact ⟨[], Timeline.later_refl _, .nothing rfl⟩
  | cons b bs =>
    rw [if_neg (show ¬ (b :: bs).isEmpty = true by simp)]
    -- The log of a client says what was accepted.  A client without a session has none, because
    -- it refuses the first write.
    cases hpeer : c.subject.peer? with
    | none =>
      have hwrite : Client.writeAll (b :: bs) c = (.error SecuredClient.noSession, c) := by
        rw [Client.writeAll, Client.write_of_noPeer hpeer]
      rw [hwrite]
      exact ⟨[], Timeline.later_refl _, .cut (List.cons_ne_nil b bs) rfl⟩
    | some p =>
      obtain ⟨es, hlater, hwrites⟩ := Client.later_writeAll (b :: bs) ⟨p, hpeer⟩
      generalize Client.writeAll (b :: bs) c = x at hlater hwrites
      obtain ⟨result, c'⟩ := x
      cases hwrites with
      | @cut ws e error rest hw hlost hrest hoctets =>
        refine ⟨_, hlater.timeline, .cut hrest ?_⟩
        rw [octetsIn_concat hlost.isUnseen]
        exact hoctets
      | all hw hoctets =>
        have hflush := Client.later_flush hlater.peer
        dsimp only at hflush ⊢
        generalize Client.flush c' = y at hflush
        obtain ⟨result, c''⟩ := y
        have hlog := (hlater.trans hflush).timeline
        cases result with
        | error e =>
          refine ⟨_, hlog, .stranded ?_⟩
          have hunseen : (Event.wire .flushFault).IsUnseen := rfl
          rw [Peer.flushLog, octetsIn_concat hunseen]
          exact hoctets
        | ok _ => exact ⟨_, hlog, .delivered hoctets⟩

/-! ### Calls -/

/-- Something that is done with an outbox. -/
inductive OutboxCall
  | put (reply : Reply)
  | send

/-- An outbox and the client to which it is sent. -/
structure Sender where
  box : Outbox := {}
  client : Timed Client

namespace OutboxCall

/-- Makes a call. -/
def perform (call : OutboxCall) (s : Sender) : Except SendError Unit × Sender :=
  match call with
  | .put reply => ((s.box.put reply).1, { s with box := (s.box.put reply).2 })
  | .send => ((s.box.send s.client).1, ⟨(s.box.send s.client).2.1, (s.box.send s.client).2.2⟩)

/-- The octets of the reply that a call puts, if it can be written. -/
def encoding : OutboxCall → Bytes
  | .put reply => if reply.encode.1 = .ok () then reply.encode.2 else []
  | .send => []

/-- Whether a call does harm: a reply cannot be written, or sending fails when the client has
accepted a part of what waits but not all. -/
def Spoils (call : OutboxCall) (s : Sender) : Prop :=
  match call with
  | .put reply => reply.encode.1 ≠ .ok ()
  | .send => (perform .send s).2.box.waiting ≠ [] ∧
      (perform .send s).2.client.timeline.written ≠ s.client.timeline.written

end OutboxCall

namespace Sender

/-- The outbox and the client behind calls. -/
def after (s : Sender) (calls : List OutboxCall) : Sender :=
  calls.foldl (fun s call => (call.perform s).2) s

/-- Whether one of the calls does harm. -/
def IsSpoiled (s : Sender) (calls : List OutboxCall) : Prop :=
  ∃ front call behind, calls = front ++ call :: behind ∧ call.Spoils (s.after front)

/-- Whether sending has failed with nothing left to be sent, and nothing has been put since. -/
def IsStranded (s : Sender) (calls : List OutboxCall) : Prop :=
  ∃ front behind, calls = front ++ .send :: behind ∧ (∀ call ∈ behind, call = .send) ∧
    (OutboxCall.send.perform (s.after front)).1 ≠ .ok () ∧
      (s.after (front ++ [.send])).box.waiting = []

variable {s : Sender} {calls : List OutboxCall} {call : OutboxCall}

theorem after_concat (s : Sender) (calls : List OutboxCall) (call : OutboxCall) :
    s.after (calls ++ [call]) = (call.perform (s.after calls)).2 := by
  rw [after, List.foldl_append]
  rfl

theorem isSpoiled_concat_iff :
    s.IsSpoiled (calls ++ [call]) ↔ s.IsSpoiled calls ∨ call.Spoils (s.after calls) := by
  constructor
  · rintro ⟨front, other, behind, hcalls, hspoils⟩
    rcases concat_eq_append_cons_cases hcalls with ⟨rfl, rfl, -⟩ | ⟨between, rfl, -⟩
    · exact .inr hspoils
    · exact .inl ⟨front, other, between, rfl, hspoils⟩
  · rintro (⟨front, other, behind, rfl, hspoils⟩ | hspoils)
    · exact ⟨front, other, behind ++ [call], by rw [List.append_assoc, List.cons_append], hspoils⟩
    · exact ⟨calls, call, [], rfl, hspoils⟩

theorem isStranded_concat_send_iff :
    s.IsStranded (calls ++ [.send]) ↔ s.IsStranded calls ∨
      (OutboxCall.send.perform (s.after calls)).1 ≠ .ok () ∧
        (s.after (calls ++ [.send])).box.waiting = [] := by
  constructor
  · rintro ⟨front, behind, hcalls, hbehind, hstrands⟩
    rcases concat_eq_append_cons_cases hcalls with ⟨rfl, -, -⟩ | ⟨between, rfl, rfl⟩
    · exact .inr hstrands
    · have hbetween : ∀ call ∈ between, call = .send :=
        fun call hmem => hbehind call (List.mem_append_left _ hmem)
      exact .inl ⟨front, between, rfl, hbetween, hstrands⟩
  · rintro (⟨front, behind, rfl, hbehind, hstrands⟩ | hstrands)
    · refine ⟨front, behind ++ [.send], by rw [List.append_assoc, List.cons_append], ?_, hstrands⟩
      exact List.forall_mem_append.mpr ⟨hbehind, List.forall_mem_singleton.mpr rfl⟩
    · exact ⟨calls, [], rfl, List.forall_mem_nil _, hstrands⟩

/-- What has been put since is still to be sent. -/
theorem not_isStranded_concat_put (s : Sender) (calls : List OutboxCall) (reply : Reply) :
    ¬ s.IsStranded (calls ++ [.put reply]) := by
  rintro ⟨front, behind, hcalls, hbehind, -⟩
  rcases concat_eq_append_cons_cases hcalls with ⟨-, hput, -⟩ | ⟨between, -, rfl⟩
  · cases hput
  · cases hbehind (.put reply) (List.mem_append_right between (List.mem_singleton_self _))

end Sender

/-! ### Delivery -/

/-- Whenever the client accepts something in a stretch of a log, it takes delivery later. -/
def DeliveryTaken (es : List (Nat × Event)) : Prop :=
  ∀ front e behind, es = front ++ e :: behind → e.2.IsWrite → ∃ m, (m, .wire .flushed) ∈ behind

theorem deliveryTaken_nil : DeliveryTaken [] := by
  intro front e behind h
  simp at h

/-- Taking delivery at the end is enough. -/
theorem deliveryTaken_concat (es : List (Nat × Event)) (m : Nat) :
    DeliveryTaken (es ++ [(m, .wire .flushed)]) := by
  intro front e behind h hwrite
  rcases concat_eq_append_cons_cases h with ⟨-, rfl, -⟩ | ⟨between, -, rfl⟩
  · obtain ⟨b, bs, he⟩ := hwrite
    cases he
  · exact ⟨m, List.mem_append_right between (List.mem_singleton_self _)⟩

/-! ### One call -/

/-- What a call does, if `es` is what happens in it. -/
structure OutboxCall.Step (call : OutboxCall) (s : Sender) (es : List (Nat × Event)) : Prop where
  later : s.client.timeline.Later (call.perform s).2.client.timeline es
  /-- What is accepted and what waits is what has waited, and the reply. -/
  unspoiled : ¬ call.Spoils s →
    octetsIn es ++ (call.perform s).2.box.waiting = s.box.waiting ++ call.encoding
  /-- There is more of it. -/
  spoiled : call.Spoils s →
    s.box.waiting.length + call.encoding.length <
      (octetsIn es).length + (call.perform s).2.box.waiting.length
  emptied : (call.perform s).2.box.waiting = [] → call = .send ∧
    (s.box.waiting = [] ∧ es = [] ∨ (call.perform s).1 ≠ .ok () ∨
      ∃ ws m, es = ws ++ [(m, .wire .flushed)])

namespace OutboxCall

/-- In no case does anything get lost. -/
theorem Step.length_le {call : OutboxCall} {s : Sender} {es : List (Nat × Event)}
    (h : Step call s es) : s.box.waiting.length + call.encoding.length ≤
      (octetsIn es).length + (call.perform s).2.box.waiting.length := by
  by_cases hspoils : call.Spoils s
  · exact Nat.le_of_lt (h.spoiled hspoils)
  · have hlength := congrArg List.length (h.unspoiled hspoils)
    rw [List.length_append, List.length_append] at hlength
    exact Nat.le_of_eq hlength.symm

theorem step_put (reply : Reply) (s : Sender) : Step (.put reply) s [] where
  later := Timeline.later_refl _
  unspoiled h := by
    have hok : reply.encode.1 = .ok () := Classical.not_not.mp h
    rw [encoding, if_pos hok]
    rfl
  spoiled h := by
    have hlength : 0 < reply.encode.2.length := List.length_pos_iff.mpr reply.encode_ne_nil
    have hwaiting : (perform (.put reply) s).2.box.waiting = s.box.waiting ++ reply.encode.2 := rfl
    rw [encoding, if_neg h, hwaiting, List.length_append]
    exact Nat.lt_of_lt_of_le (Nat.lt_add_of_pos_right hlength) (Nat.le_add_left _ _)
  emptied h := absurd (List.append_eq_nil_iff.mp h).2 reply.encode_ne_nil

theorem exists_step_send {s : Sender} (hhorizon : s.client.timeline.horizon = none) :
    ∃ es, Step .send s es := by
  obtain ⟨es, hlater, hsending⟩ := s.box.sending_send s.client
  have hwritten : (perform .send s).2.client.timeline.written =
      s.client.timeline.written ++ octetsIn es := by
    have hover : (s.box.send s.client).2.2.timeline.isOver = false :=
      Timeline.isOver_of_horizon (hlater.horizon.trans hhorizon)
    have hevents := hlater.events hover
    show octetsIn (s.box.send s.client).2.2.timeline.events = _
    rw [hevents, octetsIn_append]
    rfl
  -- What the log has of accepted octets is what sending has added to it.
  have hspoils : Spoils .send s ↔ (s.box.send s.client).2.1.waiting ≠ [] ∧ octetsIn es ≠ [] := by
    show (_ ∧ (perform .send s).2.client.timeline.written ≠ _) ↔ _
    rw [hwritten, ne_eq (_ ++ _), List.append_right_eq_self]
    rfl
  refine ⟨es, hlater, fun h => ?_, fun h => ?_, fun h => ⟨rfl, hsending.emptied h⟩⟩
  · rw [encoding, List.append_nil]
    exact hsending.octetsIn_append (mt hspoils.mpr h)
  · obtain ⟨hne, hsome⟩ := hspoils.mp h
    exact hsending.length_lt hne hsome

theorem exists_step (call : OutboxCall) {s : Sender} (hhorizon : s.client.timeline.horizon = none) :
    ∃ es, Step call s es := by
  cases call with
  | put reply => exact ⟨[], step_put reply s⟩
  | send => exact exists_step_send hhorizon

end OutboxCall

/-! ### Calls in a row -/

namespace Sender

/-- What holds of an empty outbox and its client behind calls, if `es` is what has happened. -/
structure Account (s : Sender) (calls : List OutboxCall) (es : List (Nat × Event)) : Prop where
  later : s.client.timeline.Later (s.after calls).client.timeline es
  /-- What has been accepted and what waits are the replies. -/
  unspoiled : ¬ s.IsSpoiled calls →
    octetsIn es ++ (s.after calls).box.waiting = calls.flatMap OutboxCall.encoding
  /-- There is more of it. -/
  spoiled : s.IsSpoiled calls →
    (calls.flatMap OutboxCall.encoding).length <
      (octetsIn es).length + (s.after calls).box.waiting.length
  taken : (s.after calls).box.waiting = [] → ¬ s.IsStranded calls → DeliveryTaken es

variable {s : Sender} {calls : List OutboxCall} {call : OutboxCall} {es es' : List (Nat × Event)}

theorem account_nil (hempty : s.box = {}) : Account s [] [] where
  later := Timeline.later_refl _
  unspoiled _ := congrArg Outbox.waiting hempty
  spoiled h := by
    obtain ⟨front, call, behind, hcalls, -⟩ := h
    simp at hcalls
  taken _ _ := deliveryTaken_nil

theorem Account.length_le (h : Account s calls es) :
    (calls.flatMap OutboxCall.encoding).length ≤
      (octetsIn es).length + (s.after calls).box.waiting.length := by
  by_cases hspoiled : s.IsSpoiled calls
  · exact Nat.le_of_lt (h.spoiled hspoiled)
  · have hlength := congrArg List.length (h.unspoiled hspoiled)
    rw [List.length_append] at hlength
    exact Nat.le_of_eq hlength.symm

/-- The account goes on with each call. -/
theorem Account.concat (h : Account s calls es) (hstep : call.Step (s.after calls) es') :
    Account s (calls ++ [call]) (es ++ es') where
  later := by
    rw [after_concat]
    exact h.later.trans hstep.later
  unspoiled hno := by
    rw [isSpoiled_concat_iff, not_or] at hno
    rw [after_concat, octetsIn_append, List.append_assoc, hstep.unspoiled hno.2,
      ← List.append_assoc, h.unspoiled hno.1, List.flatMap_append, List.flatMap_singleton]
  spoiled hspoiled := by
    -- Nothing ever gets lost, so what there was too much of stays too much.
    have hle := h.length_le
    have hle' := hstep.length_le
    rw [after_concat, octetsIn_append, List.flatMap_append, List.flatMap_singleton,
      List.length_append, List.length_append]
    rcases isSpoiled_concat_iff.mp hspoiled with hspoiled | hspoils
    · have hlt := h.spoiled hspoiled
      omega
    · have hlt := hstep.spoiled hspoils
      omega
  -- Only sending empties the outbox, and it has been flushed then, has failed, or had nothing to do.
  taken hnil hno := by
    have hemptied := hstep.emptied
    rw [← after_concat] at hemptied
    obtain ⟨rfl, hcases⟩ := hemptied hnil
    rw [isStranded_concat_send_iff, not_or] at hno
    obtain ⟨hbefore, rfl⟩ | hfails | ⟨ws, m, rfl⟩ := hcases
    · rw [List.append_nil]
      exact h.taken hbefore hno.1
    · exact absurd ⟨hfails, hnil⟩ hno.2
    · rw [← List.append_assoc]
      exact deliveryTaken_concat (es ++ ws) m

theorem exists_account (hempty : s.box = {}) (hhorizon : s.client.timeline.horizon = none)
    (calls : List OutboxCall) : ∃ es, Account s calls es := by
  induction calls using List.reverseRecOn with
  | nil => exact ⟨[], account_nil hempty⟩
  | append_singleton calls call ih =>
    obtain ⟨es, h⟩ := ih
    obtain ⟨es', hstep⟩ := call.exists_step (h.later.horizon.trans hhorizon)
    exact ⟨es ++ es', h.concat hstep⟩

/-- **When sending succeeds, a client has got each reply once.**  Let any calls be made on an empty
outbox, and sending succeed behind them.  What the client has accepted since the beginning is then
the replies that could be written, each in full, once and in order, if and only if none of the calls
was a reply that could not be written, or has failed to send with a part of what waits accepted but
not all.  And the client has taken delivery of all of it, unless sending has failed with nothing
left to be sent, and nothing has been put since. -/
theorem sent_once (c : Timed Client) (hhorizon : c.timeline.horizon = none)
    (calls : List OutboxCall)
    (hok : (OutboxCall.send.perform (after ⟨{}, c⟩ calls)).1 = .ok ()) :
    ∃ es, (OutboxCall.send.perform (after ⟨{}, c⟩ calls)).2.client.timeline.events =
        c.timeline.events ++ es ∧
      (octetsIn es = calls.flatMap OutboxCall.encoding ↔ ¬ IsSpoiled ⟨{}, c⟩ calls) ∧
        (¬ IsStranded ⟨{}, c⟩ calls → DeliveryTaken es) := by
  obtain ⟨es, h⟩ := exists_account (s := ⟨{}, c⟩) rfl hhorizon (calls ++ [.send])
  obtain ⟨ws, -, hsending⟩ :=
    (after ⟨{}, c⟩ calls).box.sending_send (after ⟨{}, c⟩ calls).client
  rw [show ((after ⟨{}, c⟩ calls).box.send (after ⟨{}, c⟩ calls).client).1 = .ok () from hok]
    at hsending
  -- Sending again adds no reply, and its success does neither kind of harm.
  have hnil : (after ⟨{}, c⟩ (calls ++ [.send])).box.waiting = [] := by
    rw [after_concat]
    exact hsending.waiting_of_ok
  have hencodings : (calls ++ [OutboxCall.send]).flatMap OutboxCall.encoding =
      calls.flatMap OutboxCall.encoding := by
    rw [List.flatMap_append]
    exact List.append_nil _
  have hspoiled : IsSpoiled ⟨{}, c⟩ (calls ++ [.send]) ↔ IsSpoiled ⟨{}, c⟩ calls := by
    rw [isSpoiled_concat_iff]
    exact or_iff_left fun hspoils => hspoils.1 hsending.waiting_of_ok
  have hstranded : IsStranded ⟨{}, c⟩ (calls ++ [.send]) ↔ IsStranded ⟨{}, c⟩ calls := by
    rw [isStranded_concat_send_iff]
    exact or_iff_left fun hstrands => hstrands.1 hok
  have hunspoiled := h.unspoiled
  have hlonger := h.spoiled
  have htaken := h.taken hnil
  have hevents := h.later.events (Timeline.isOver_of_horizon (h.later.horizon.trans hhorizon))
  rw [hnil, hspoiled, hencodings] at hunspoiled hlonger
  rw [hstranded] at htaken
  rw [after_concat] at hevents
  refine ⟨es, hevents, ⟨fun heq hsome => ?_, fun hno => ?_⟩, htaken⟩
  · have hlt := hlonger hsome
    rw [← heq] at hlt
    exact Nat.lt_irrefl _ hlt
  · rw [← hunspoiled hno, List.append_nil]

/-- A reply is first offered in vain, and then accepted with another one in pieces of twenty
octets. -/
theorem sent_once_pieces :
    let intake : Intake :=
      { onWrite := fun before _ _ => if before = 0 then .accept 0 else .accept 20 }
    let c : Timed Client := ⟨.plain { intake }, {}⟩
    let first : Reply := { response := { status := .ok, body := [0x61] }, keepAlive := true }
    let second : Reply := { response := { status := .notFound }, keepAlive := false }
    let calls : List OutboxCall := [.put first, .send, .put second]
    c.timeline.horizon = none ∧ (OutboxCall.send.perform (after ⟨{}, c⟩ calls)).1 = .ok () ∧
      ¬ IsSpoiled ⟨{}, c⟩ calls ∧
        DeliveryTaken (OutboxCall.send.perform (after ⟨{}, c⟩ calls)).2.client.timeline.events := by
  intro intake c first second calls
  have hok : (OutboxCall.send.perform (after ⟨{}, c⟩ calls)).1 = .ok () := by decide +kernel
  obtain ⟨es, hevents, hiff, htaken⟩ := sent_once c rfl calls hok
  have hoctets :
      octetsIn (OutboxCall.send.perform (after ⟨{}, c⟩ calls)).2.client.timeline.events =
        calls.flatMap OutboxCall.encoding := by decide +kernel
  rw [show c.timeline.events = [] from rfl, List.nil_append] at hevents
  rw [hevents] at hoctets ⊢
  exact ⟨rfl, hok, hiff.mp hoctets,
    htaken (not_isStranded_concat_put ⟨{}, c⟩ [.put first, .send] second)⟩

/-- **Behind a call that has failed a client may get something else.**  The front of a reply with a
broken cookie is sent with the next one, an octet that was accepted in front of a fault is sent
again, and a client that could not take delivery is not asked again. -/
theorem not_sent_once :
    let reply : Reply := { response := { status := .ok }, keepAlive := false }
    let broken : Reply :=
      { reply with cookies := some ((CookieJar.mk []).set "a".toList "\n".toList) }
    let fault : IoError := { message := "write failed".toList }
    let sender (intake : Intake) : Sender := { client := ⟨.plain { intake }, {}⟩ }
    let breaking : Intake :=
      { onWrite := fun before _ offered =>
          if before = 0 then .accept 1 else if before = 1 then .fault fault else .accept offered }
    let refused := (sender {}).after [.put broken, .put reply]
    let cut := (sender breaking).after [.put reply, .send]
    let stranded := (sender (.ofBounds { failFlush := some 1 })).after [.put reply, .send]
    ((OutboxCall.send.perform refused).1 = .ok () ∧
        (OutboxCall.send.perform refused).2.client.timeline.written ≠
          [OutboxCall.put broken, .put reply].flatMap OutboxCall.encoding) ∧
      ((OutboxCall.send.perform cut).1 = .ok () ∧
        (OutboxCall.send.perform cut).2.client.timeline.written ≠
          [OutboxCall.put reply, .send].flatMap OutboxCall.encoding) ∧
      (OutboxCall.send.perform stranded).1 = .ok () ∧
        (OutboxCall.send.perform stranded).2.client.timeline.events =
          [(0, .wire (.wrote reply.encode.2)), (0, .wire .flushFault)] := by
  intro reply broken fault sender breaking refused cut stranded
  have hrefused : (OutboxCall.send.perform refused).1 = .ok () := by decide +kernel
  have hcut : (OutboxCall.send.perform cut).1 = .ok () := by decide +kernel
  have hstranded : (OutboxCall.send.perform stranded).1 = .ok () := by decide +kernel
  exact ⟨⟨hrefused, by decide +kernel⟩, ⟨hcut, by decide +kernel⟩, hstranded, by decide +kernel⟩

end Sender

end HttpWire
