import HttpWire.Connection.Outbox
import HttpWire.Proofs.Reading.Stream
import HttpWire.Proofs.Wire.Views

/-!
# What clients leave alone

Only the pipeline is handed requests, so nothing that is done to a client changes which requests
were handed, however it ends (`handed_readScript` and its companions).  Writing also leaves what
can still be read from the client (`Client.Keeps`).
-/

namespace HttpWire

/-! ### Timelines -/

namespace Timeline

theorem handed_of_events_eq {t t' : Timeline} (h : t'.events = t.events) :
    t'.handed = t.handed := by
  rw [handed, sights, h, handed, sights]

/-- Recording anything else hands no request. -/
theorem handed_record {e : Event} (h : ∀ q, e ≠ .handed q) (t : Timeline) :
    (t.record e).handed = t.handed := by
  -- What is seen of such an event is no request.
  have hnone : (Sight.ofEvent e).filterMap Sight.request? = [] := by
    cases e with
    | handed q => exact absurd rfl (h q)
    | wire e =>
      cases e with
      | wrote bytes => exact Sight.filterMap_request?_accepted bytes
      | _ => rfl
    | _ => rfl
  unfold record
  split
  · rfl
  · rw [handed, sights, List.flatMap_append, List.flatMap_singleton, List.filterMap_append, hnone,
      List.append_nil, handed, sights]

@[simp] theorem handed_wire (t : Timeline) (e : WireEvent) : (t.wire e).handed = t.handed :=
  handed_record (fun _ h => by cases h) t

theorem handed_wait (t : Timeline) (until? : Option Nat) :
    (t.wait until?).2.handed = t.handed := by
  apply handed_of_events_eq
  unfold wait
  split <;> rfl

theorem handed_sleep (t : Timeline) (ms : Nat) : (t.sleep ms).2.handed = t.handed := by
  unfold sleep
  split
  · rfl
  · exact t.handed_wait _

theorem handed_perform (t : Timeline) (a : Act) : (t.perform a).handed = t.handed := by
  cases a with
  | mark m => exact handed_record (fun _ h => by cases h) t
  | pause ms => exact handed_of_events_eq rfl
  | cancel => exact handed_of_events_eq rfl

theorem handed_foldl_perform (t : Timeline) (acts : List Act) :
    (acts.foldl .perform t).handed = t.handed := by
  induction acts generalizing t with
  | nil => rfl
  | cons a acts ih => rw [List.foldl_cons, ih, handed_perform]

end Timeline

/-! ### Peers -/

namespace Peer

theorem handed_readNever (p : Peer) (t : Timeline) :
    (p.readNever t).2.timeline.handed = t.handed := by
  have h := t.handed_wait none
  unfold readNever
  split <;> next hw =>
    rw [hw] at h
    exact h

theorem handed_readScript (limit : Nat) (p : Peer) (script : List Arrival) (t : Timeline) :
    (readScript limit p script t).2.timeline.handed = t.handed := by
  fun_induction readScript limit p script t with
  | case1 | case2 | case5 | case6 | case7 => exact Timeline.handed_wire ..
  | case3 | case11 | case12 => exact handed_readNever ..
  | case4 p rest t ih => exact ih
  | case8 p ms rest t t' hs ih =>
    have h := Timeline.handed_sleep t ms
    rw [hs] at h
    exact ih.trans h
  | case9 p ms rest t cause t' hs =>
    have h := Timeline.handed_sleep t ms
    rw [hs] at h
    exact h
  | case10 p rest t ih => exact ih

/-- Writing and flushing leave the arrivals alone, and hand no request. -/
def LeavesInput {α : Type} (f : Timed Peer → Except IoError α × Timed Peer) : Prop :=
  ∀ p, (f p).2.subject.script = p.subject.script ∧
    (f p).2.timeline.handed = p.timeline.handed

theorem leavesInput_write (bytes : Bytes) : LeavesInput (write bytes) := by
  intro p
  unfold write
  simp only
  split <;> exact ⟨rfl, Timeline.handed_wire ..⟩

theorem leavesInput_flush : LeavesInput flush := by
  intro p
  unfold flush
  simp only
  split <;> exact ⟨rfl, Timeline.handed_wire ..⟩

theorem handed_close (p : Timed Peer) : (close p).2.timeline.handed = p.timeline.handed := by
  unfold close
  simp only
  split <;> exact Timeline.handed_wire ..

end Peer

/-! ### Clients -/

namespace Client

theorem handed_onEither {ε α : Type} {refused : ε} {f : Timed Peer → Except ε α × Timed Peer}
    (hf : ∀ p, (f p).2.timeline.handed = p.timeline.handed) (c : Timed Client) :
    (onEither f (SecuredClient.withSession refused f) c).2.timeline.handed = c.timeline.handed := by
  obtain ⟨client, t⟩ := c
  cases client with
  | plain peer => exact hf ⟨peer, t⟩
  | secured client =>
    obtain ⟨state, remote⟩ := client
    cases state with
    | established session => exact hf ⟨session, t⟩
    | pending | failed => rfl

theorem handed_read (limit : Nat) (c : Timed Client) :
    (read limit c).2.timeline.handed = c.timeline.handed :=
  handed_onEither (fun p => Peer.handed_readScript limit p.subject p.subject.script p.timeline) c

theorem handed_close (c : Timed Client) : (close c).2.timeline.handed = c.timeline.handed := by
  obtain ⟨client, t⟩ := c
  cases client with
  | plain peer => exact Peer.handed_close ⟨peer, t⟩
  | secured client =>
    obtain ⟨state, remote⟩ := client
    cases state with
    | established session => exact Peer.handed_close ⟨session, t⟩
    | pending inner negotiator => exact Peer.handed_close ⟨inner, t⟩
    | failed => rfl

/-- A client from which the same can still be read, and the same requests handed. -/
structure Keeps (c c' : Timed Client) : Prop where
  upcoming : c'.subject.upcoming = c.subject.upcoming
  handed : c'.timeline.handed = c.timeline.handed

theorem Keeps.trans {c c' c'' : Timed Client} (h : Keeps c c') (h' : Keeps c' c'') : Keeps c c'' :=
  ⟨h'.upcoming.trans h.upcoming, h'.handed.trans h.handed⟩

theorem keeps_onEither {α : Type} {refused : IoError}
    {f : Timed Peer → Except IoError α × Timed Peer} (hf : Peer.LeavesInput f) (c : Timed Client) :
    Keeps c (onEither f (SecuredClient.withSession refused f) c).2 where
  upcoming := by
    obtain ⟨client, t⟩ := c
    cases client with
    | plain peer => exact congrArg Peer.upcomingIn (hf ⟨peer, t⟩).1
    | secured client =>
      obtain ⟨state, remote⟩ := client
      cases state with
      | established session => exact congrArg Peer.upcomingIn (hf ⟨session, t⟩).1
      | pending | failed => rfl
  handed := handed_onEither (fun p => (hf p).2) c

theorem keeps_write (bytes : Bytes) (c : Timed Client) : Keeps c (write bytes c).2 :=
  keeps_onEither (Peer.leavesInput_write bytes) c

theorem keeps_flush (c : Timed Client) : Keeps c (flush c).2 :=
  keeps_onEither Peer.leavesInput_flush c

theorem keeps_writeAll (bytes : Bytes) (c : Timed Client) : Keeps c (writeAll bytes c).2 := by
  fun_induction writeAll bytes c with
  | case1 => exact ⟨rfl, rfl⟩
  | case2 c b bs e c' hw | case3 c b bs c' hw =>
    have h := keeps_write (b :: bs) c
    rw [hw] at h
    exact h
  | case4 c b bs n c' hw ih =>
    have h := keeps_write (b :: bs) c
    rw [hw] at h
    exact h.trans ih

end Client

/-- Sending leaves what can be read, and hands no request. -/
theorem Outbox.keeps_send (box : Outbox) (c : Timed Client) : Client.Keeps c (box.send c).2.2 := by
  have hwrite := Client.keeps_writeAll box.waiting c
  unfold send
  split
  · exact ⟨rfl, rfl⟩
  · split
    · next hw =>
      rw [hw] at hwrite
      exact hwrite
    · next c' hw =>
      rw [hw] at hwrite
      have hflush := Client.keeps_flush c'
      split <;> next hf =>
        rw [hf] at hflush
        exact hwrite.trans hflush

end HttpWire
