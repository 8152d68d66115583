import HttpWire.Proofs.Connection.Log

/-!
# The course of a connection

Whatever the client does, a connection takes the same course: handshake, exchanges that leave
nothing undone, at most one that fails, and the client is closed.  `Answered` is what the exchanges
leave before anything has failed: the octets that the client has accepted are those of the replies
that the pipelines have left.  `Breaks` is what the exchange leaves that fails, and `Course` puts
them together.

A stretch that is `Answered` can be continued by any other one, so the induction over the loop adds
one exchange at a time (`course_serve`).
-/

namespace HttpWire

variable {x : Execution} {es es' : List (Nat × Event)}

/-! ### Kinds of events -/

namespace Event

/-- The client is opened or shut. -/
inductive IsFrame : Event → Prop
  | handshake : IsFrame (.wire .handshake)
  | shut : IsFrame (.wire .shut)

/-- Something is read or written, or a request is handed to the pipeline. -/
inductive IsWork : Event → Prop
  | read (count : Nat) : IsWork (.wire (.read count))
  | readFault : IsWork (.wire .readFault)
  | wrote (bytes : Bytes) : IsWork (.wire (.wrote bytes))
  | writeFault : IsWork (.wire .writeFault)
  | handed (q : Request) : IsWork (.handed q)

/-- Something has gone wrong: reading, writing or flushing, or it is reported that an exchange has
failed.  The pipeline goes wrong if the reply that it leaves cannot be written. -/
inductive IsFailure : Event → Prop
  | readFault : IsFailure (.wire .readFault)
  | lostWrite {e} (h : e.IsLostWrite) : IsFailure e
  | flushFault : IsFailure (.wire .flushFault)
  | unwritable {context reply error} (hreply : context.reply? = some reply)
    (hencode : reply.encode.1 = .error error) : IsFailure (.answered context)
  | reported (error : ServeError) : IsFailure (.notice (.exchangeFailed error))

/-- Something happens that is neither a failure nor the beginning or the end. -/
def IsSound (e : Event) : Prop :=
  ¬ e.IsFailure ∧ ¬ e.IsFrame

theorem IsRead.isSound {e : Event} (h : e.IsRead) : e.IsSound := by
  obtain ⟨count, rfl⟩ := h
  refine ⟨?_, nofun⟩
  rintro (_ | ⟨_ | _⟩)

theorem IsWrite.isSound {e : Event} (h : e.IsWrite) : e.IsSound := by
  obtain ⟨b, bs, rfl⟩ := h
  refine ⟨?_, nofun⟩
  rintro (_ | ⟨_ | _⟩)

theorem isSound_flushed : (Event.wire .flushed).IsSound := by
  refine ⟨?_, nofun⟩
  rintro (_ | ⟨_ | _⟩)

theorem isSound_handed (q : Request) : (Event.handed q).IsSound := by
  refine ⟨?_, nofun⟩
  rintro (_ | ⟨_ | _⟩)

theorem isSound_mark (m : Mark) : (Event.mark m).IsSound := by
  refine ⟨?_, nofun⟩
  rintro (_ | ⟨_ | _⟩)

/-- A notice is a failure only if it reports one. -/
theorem isSound_notice {n : Notice} (h : ∀ error, n ≠ .exchangeFailed error) :
    (Event.notice n).IsSound := by
  refine ⟨?_, nofun⟩
  rintro (_ | ⟨_ | _⟩ | _ | _ | error)
  exact h error rfl

/-- A context without a reply, or with one that can be written, is sound. -/
theorem isSound_answered {c : Context}
    (h : ∀ reply, c.reply? = some reply → reply.encode.1 = .ok ()) :
    (Event.answered c).IsSound := by
  refine ⟨?_, nofun⟩
  rintro (_ | ⟨_ | _⟩ | _ | ⟨hreply, hencode⟩)
  rw [h _ hreply] at hencode
  cases hencode

/-- Something that handling a request reports. -/
def IsReport (e : Event) : Prop :=
  (∃ mark, e = .mark mark) ∨ ∃ context, e = .answered context

theorem IsReport.isUnseen {e : Event} (h : e.IsReport) : e.IsUnseen := by
  obtain ⟨mark, rfl⟩ | ⟨context, rfl⟩ := h <;> rfl

theorem IsReport.not_isWork {e : Event} (h : e.IsReport) : ¬ e.IsWork := by
  obtain ⟨mark, rfl⟩ | ⟨context, rfl⟩ := h <;> nofun

theorem IsLostWrite.not_isFrame {e : Event} (h : e.IsLostWrite) : ¬ e.IsFrame := by
  cases h <;> nofun

end Event

namespace Connection

open Event

/-! ### Before anything fails -/

/-- A stretch in which nothing fails: the octets that the client has accepted are those of the
replies that the pipelines have left. -/
structure Answered (es : List (Nat × Event)) : Prop where
  sound : ∀ e ∈ es, e.2.IsSound
  octets : octetsIn es = ((contextsIn es).filterMap Context.reply?).flatMap (·.encode.2)

theorem answered_nil : Answered [] where
  sound _ he := absurd he List.not_mem_nil
  octets := rfl

theorem Answered.append (h : Answered es) (h' : Answered es') : Answered (es ++ es') where
  sound := List.forall_mem_append.mpr ⟨h.sound, h'.sound⟩
  octets := by
    rw [octetsIn_append, contextsIn_append, h.octets, h'.octets, List.filterMap_append,
      List.flatMap_append]

/-- A stretch in which nothing is seen and nothing fails, and no pipeline is left. -/
theorem answered_of_unseen (hunseen : ∀ e ∈ es, e.2.IsUnseen) (hcontexts : contextsIn es = [])
    (hsound : ∀ e ∈ es, e.2.IsSound) : Answered es where
  sound := hsound
  octets := by
    rw [octetsIn_eq_nil hunseen, hcontexts]
    rfl

theorem answered_reads (h : ∀ e ∈ es, e.2.IsRead) : Answered es :=
  answered_of_unseen (fun e he => (h e he).isUnseen) (nil_of_reads h).2 fun e he => (h e he).isSound

theorem answered_singleton {m : Nat} {e : Event} (hunseen : e.IsUnseen)
    (hcontext : e.context? = none) (hsound : e.IsSound) : Answered [(m, e)] :=
  answered_of_unseen (List.forall_mem_singleton.mpr hunseen)
    (contextsIn_eq_nil (List.forall_mem_singleton.mpr hcontext))
    (List.forall_mem_singleton.mpr hsound)

/-! ### Running the pipeline -/

namespace Executed

variable {start : Nat} {run : List (Nat × Event)}

/-- The request stands first; behind it there is what its handling reports. -/
theorem exists_reports (h : Executed x start run) :
    ∃ reports, run = (start, .handed x.request) :: reports ∧ ∀ e ∈ reports, e.2.IsReport := by
  obtain ⟨hacts⟩ := h
  exact ⟨_, rfl, List.forall_mem_append.mpr
    ⟨fun e he => .inl (hacts e he), List.forall_mem_singleton.mpr (.inr ⟨_, rfl⟩)⟩⟩

/-- The context stands last; in front of it nothing fails. -/
theorem exists_front (h : Executed x start run) :
    ∃ front m, run = front ++ [(m, .answered x.context)] ∧ ∀ e ∈ front, e.2.IsSound := by
  obtain ⟨hacts⟩ := h
  refine ⟨_ :: _, _, rfl, List.forall_mem_cons.mpr ⟨isSound_handed _, fun e he => ?_⟩⟩
  obtain ⟨mark, he⟩ := hacts e he
  rw [he]
  exact isSound_mark mark

theorem octetsIn_eq (h : Executed x start run) : octetsIn run = [] := by
  obtain ⟨reports, rfl, hreports⟩ := h.exists_reports
  rw [← List.singleton_append, octetsIn_append,
    octetsIn_eq_nil fun e he => (hreports e he).isUnseen]
  rfl

/-- Running the pipeline is sound if the reply can be written. -/
theorem sound (h : Executed x start run)
    (hencode : ∀ reply, x.context.reply? = some reply → reply.encode.1 = .ok ()) :
    ∀ e ∈ run, e.2.IsSound := by
  obtain ⟨front, m, rfl, hfront⟩ := h.exists_front
  exact List.forall_mem_append.mpr
    ⟨hfront, List.forall_mem_singleton.mpr (isSound_answered hencode)⟩

end Executed

/-! ### The exchange that fails -/

/-- The part of a reply that goes out in a stretch: nothing of one that cannot be written, and of
another one a front part, the rest of which was lost with a write. -/
inductive Cut (reply : Reply) (es : List (Nat × Event)) : Prop
  | unwritable {error} (hencode : reply.encode.1 = .error error) (hoctets : octetsIn es = [])
  | lost {rest} (hencode : reply.encode.1 = .ok ()) (hrest : rest ≠ [])
    (hoctets : reply.encode.2 = octetsIn es ++ rest) (hlost : ∃ e ∈ es, e.2.IsLostWrite)

/-- A stretch that begins where the exchange that fails has left the course: behind the first
failure in it nothing is read, written or handed to the pipeline any more. -/
structure Breaks (es : List (Nat × Event)) : Prop where
  frame : ∀ e ∈ es, ¬ e.2.IsFrame
  order : ∃ front e behind, es = front ++ e :: behind ∧
    (∀ e ∈ front, ¬ e.2.IsFailure) ∧ ∀ e ∈ behind, ¬ e.2.IsWork
  output : contextsIn es = [] ∧ octetsIn es = [] ∨
    ∃ context reply, contextsIn es = [context] ∧ context.reply? = some reply ∧ Cut reply es

/-- A failure that is reported at once. -/
theorem breaks_of_failure {m m' : Nat} {e : Event} (error : ServeError) (hunseen : e.IsUnseen)
    (hcontext : e.context? = none) (hframe : ¬ e.IsFrame) :
    Breaks [(m, e), (m', .notice (.exchangeFailed error))] where
  frame x hx := by
    rcases List.mem_cons.mp hx with rfl | hx
    · exact hframe
    · obtain rfl := List.mem_singleton.mp hx
      nofun
  order := by
    refine ⟨[], _, _, rfl, fun x hx => absurd hx List.not_mem_nil, fun x hx => ?_⟩
    obtain rfl := List.mem_singleton.mp hx
    nofun
  output := .inl
    ⟨contextsIn_eq_nil (List.forall_mem_cons.mpr ⟨hcontext, List.forall_mem_singleton.mpr rfl⟩),
      octetsIn_eq_nil (List.forall_mem_cons.mpr ⟨hunseen, List.forall_mem_singleton.mpr rfl⟩)⟩

/-- What is reported of an exchange that fails is a break of its own. -/
theorem breaks_of_report {m : Nat} (error : ServeError) :
    Breaks [(m, .notice (.exchangeFailed error))] where
  frame x hx := by
    obtain rfl := List.mem_singleton.mp hx
    nofun
  order := ⟨[], _, [], rfl, fun x hx => absurd hx List.not_mem_nil,
    fun x hx => absurd hx List.not_mem_nil⟩
  output := .inl ⟨rfl, rfl⟩

/-- A reply that cannot be written ends the exchange where the pipeline is left. -/
theorem breaks_of_unwritable {m start : Nat} {run : List (Nat × Event)} {reply : Reply}
    {sendError : SendError} (error : ServeError) (hrun : Executed x start run)
    (hreply : x.context.reply? = some reply) (hencode : reply.encode.1 = .error sendError) :
    Breaks (run ++ [(m, .notice (.exchangeFailed error))]) := by
  have hcontexts := hrun.contextsIn_eq
  have hoctets := hrun.octetsIn_eq
  obtain ⟨front, m', rfl, hfront⟩ := hrun.exists_front
  constructor
  case frame =>
    refine List.forall_mem_append.mpr ⟨List.forall_mem_append.mpr ⟨fun e he => (hfront e he).2,
      List.forall_mem_singleton.mpr ?_⟩, List.forall_mem_singleton.mpr ?_⟩
    · nofun
    · nofun
  case order =>
    refine ⟨front, _, _, List.append_assoc .., fun e he => (hfront e he).1,
      List.forall_mem_singleton.mpr ?_⟩
    nofun
  case output =>
    refine .inr ⟨x.context, reply, ?_, hreply, .unwritable hencode ?_⟩
    · rw [contextsIn_append, hcontexts]
      rfl
    · rw [octetsIn_append, hoctets]
      rfl

/-- A lost write ends the exchange behind the front part of the reply. -/
theorem breaks_of_lost {m start : Nat} {run ws : List (Nat × Event)} {lost : Nat × Event}
    {reply : Reply} {rest : Bytes} (error : ServeError) (hrun : Executed x start run)
    (hreply : x.context.reply? = some reply) (hencode : reply.encode.1 = .ok ())
    (hwrites : ∀ e ∈ ws, e.2.IsWrite) (hlost : lost.2.IsLostWrite) (hrest : rest ≠ [])
    (hoctets : reply.encode.2 = octetsIn ws ++ rest) :
    Breaks (run ++ (ws ++ [lost]) ++ [(m, .notice (.exchangeFailed error))]) := by
  have hwritable : ∀ reply', x.context.reply? = some reply' → reply'.encode.1 = .ok () := by
    intro reply' hreply'
    rw [hreply] at hreply'
    obtain rfl := Option.some.inj hreply'
    exact hencode
  -- The break is a sound stretch, the lost write and the report.
  have hsplit : run ++ (ws ++ [lost]) ++ [(m, .notice (.exchangeFailed error))] =
      (run ++ ws) ++ lost :: [(m, .notice (.exchangeFailed error))] := by
    simp only [List.append_assoc, List.cons_append, List.nil_append]
  have hsound : ∀ e ∈ run ++ ws, e.2.IsSound :=
    List.forall_mem_append.mpr ⟨hrun.sound hwritable, fun e he => (hwrites e he).isSound⟩
  have hcontexts : contextsIn ws = [] := contextsIn_eq_nil fun e he => (hwrites e he).context?_eq
  have htail : octetsIn (lost :: [(m, .notice (.exchangeFailed error))]) = [] ∧
      contextsIn (lost :: [(m, .notice (.exchangeFailed error))]) = [] :=
    ⟨octetsIn_eq_nil
        (List.forall_mem_cons.mpr ⟨hlost.isUnseen, List.forall_mem_singleton.mpr rfl⟩),
      contextsIn_eq_nil
        (List.forall_mem_cons.mpr ⟨hlost.context?_eq, List.forall_mem_singleton.mpr rfl⟩)⟩
  rw [hsplit]
  constructor
  case frame =>
    refine List.forall_mem_append.mpr ⟨fun e he => (hsound e he).2,
      List.forall_mem_cons.mpr ⟨hlost.not_isFrame, List.forall_mem_singleton.mpr ?_⟩⟩
    nofun
  case order =>
    refine ⟨run ++ ws, _, _, rfl, fun e he => (hsound e he).1, List.forall_mem_singleton.mpr ?_⟩
    nofun
  case output =>
    refine .inr ⟨x.context, reply, ?_, hreply, .lost hencode hrest ?_ ⟨lost, ?_, hlost⟩⟩
    · rw [contextsIn_append, contextsIn_append, hrun.contextsIn_eq, hcontexts, htail.2]
      rfl
    · rw [octetsIn_append, octetsIn_append, hrun.octetsIn_eq, htail.1, List.nil_append,
        List.append_nil, hoctets]
    · exact List.mem_append_right _ List.mem_cons_self

/-! ### Exchanges -/

/-- What an exchange leaves, by what it came to. -/
inductive ExchangeLog : Outcome → List (Nat × Event) → Prop
  | answered {outcome es} (h : Answered es) (ho : ∀ e, outcome ≠ .failed e) :
    ExchangeLog outcome es
  | failed {error es es'} (h : Answered es)
    (hbreaks : ∀ m, Breaks (es' ++ [(m, .notice (.exchangeFailed error))])) :
    ExchangeLog (.failed error) (es ++ es')

/-- An exchange that fails from the beginning. -/
theorem ExchangeLog.of_breaks {error : ServeError}
    (hbreaks : ∀ m, Breaks (es ++ [(m, .notice (.exchangeFailed error))])) :
    ExchangeLog (.failed error) es :=
  .failed answered_nil hbreaks

theorem ExchangeLog.prepend {outcome : Outcome} (h : Answered es)
    (h' : ExchangeLog outcome es') : ExchangeLog outcome (es ++ es') := by
  cases h' with
  | answered h' ho => exact .answered (h.append h') ho
  | failed h' hbreaks =>
    rw [← List.append_assoc]
    exact .failed (h.append h') hbreaks

/-- A request that is answered is answered in full. -/
theorem Executed.answered_sent {start : Nat} {run ws : List (Nat × Event)} {reply : Reply}
    (hrun : Executed x start run) (hreply : x.context.reply? = some reply)
    (hencode : reply.encode.1 = .ok ()) (hwrites : ∀ e ∈ ws, e.2.IsWrite)
    (hoctets : octetsIn ws = reply.encode.2) : Answered (run ++ ws) where
  sound := by
    refine List.forall_mem_append.mpr ⟨hrun.sound fun reply' hreply' => ?_,
      fun e he => (hwrites e he).isSound⟩
    rw [hreply] at hreply'
    obtain rfl := Option.some.inj hreply'
    exact hencode
  octets := by
    have hcontexts : contextsIn ws = [] :=
      contextsIn_eq_nil fun e he => (hwrites e he).context?_eq
    rw [octetsIn_append, contextsIn_append, hrun.octetsIn_eq, hrun.contextsIn_eq, hcontexts,
      hoctets]
    simp only [List.append_nil, List.filterMap_cons, hreply, List.filterMap_nil,
      List.flatMap_cons, List.flatMap_nil, List.nil_append]

theorem exchangeLog_of_handling {start : Nat} {outcome : Outcome}
    (h : Handling x start outcome es) : ExchangeLog outcome es := by
  cases h with
  | unanswered hrun hreply =>
    refine .answered ⟨hrun.sound ?_, ?_⟩ nofun
    · intro reply hreply'
      rw [hreply] at hreply'
      cases hreply'
    · rw [hrun.octetsIn_eq, hrun.contextsIn_eq, List.filterMap_cons, hreply]
      rfl
  | unwritable hrun hreply hencode =>
    exact .of_breaks fun m => breaks_of_unwritable _ hrun hreply hencode
  | sent hrun hreply hencode hws =>
    cases hws with
    | @delivered ws m hwrites hoctets =>
      have hsent := hrun.answered_sent hreply hencode hwrites hoctets
      have hflushed : Answered [(m, .wire .flushed)] := answered_singleton rfl rfl isSound_flushed
      rw [← List.append_assoc]
      exact .answered (hsent.append hflushed) nofun
  | notSent hrun hreply hencode hws =>
    cases hws with
    | cut hwrites hlost hrest hoctets =>
      exact .of_breaks fun m =>
        breaks_of_lost _ hrun hreply hencode hwrites hlost hrest hoctets
    | notTaken hwrites hoctets =>
      have hsent := hrun.answered_sent hreply hencode hwrites hoctets
      rw [← List.append_assoc]
      exact .failed hsent fun m => breaks_of_failure _ rfl rfl nofun

variable {υ : Type} [VersionResolver υ] {s : Service} {stage : Stage} {c c' : Connection υ}

/-- **An exchange leaves nothing undone, or breaks the course.** -/
theorem exchangeLog_of_exchanged {outcome : Outcome} (h : Exchanged s c outcome es) :
    ExchangeLog outcome es := by
  cases h with
  | notBegun _ => exact .answered answered_nil nofun
  | handled _ _ hreads _ hhandling =>
    exact (exchangeLog_of_handling hhandling).prepend (answered_reads hreads)
  | @nothing why es es' _ _ hreads hreport =>
    have hnotices := nil_of_notices fun e he => (hreport e he).imp fun _ h => h.2
    have hreported : Answered es' := by
      refine answered_of_unseen (fun e he => ?_) hnotices.2 fun e he => ?_
      · obtain ⟨n, -, he⟩ := hreport e he
        rw [he]
        rfl
      · obtain ⟨n, hn, he⟩ := hreport e he
        rw [he]
        apply isSound_notice
        intro error hfailed
        rw [hfailed] at hn
        cases why <;> cases hn
    exact .answered ((answered_reads hreads).append hreported) nofun
  | @stopped e es _ _ hreceiving =>
    cases hreceiving with
    | reads hreads _ =>
      rcases e with e | _ | _ | _
      · have hfailed : ExchangeLog (.failed (.request e)) (es ++ []) :=
          .failed (answered_reads hreads) fun m => breaks_of_report _
        rwa [List.append_nil] at hfailed
      · exact .answered (answered_reads hreads) nofun
      · exact .answered (answered_reads hreads) nofun
      · exact .answered (answered_reads hreads) nofun
    | @readFault es m io hreads =>
      have hbreaks : ∀ m', Breaks ([(m, .wire .readFault)] ++
          [(m', .notice (.exchangeFailed (.request (.io io))))]) := fun m' =>
        breaks_of_failure _ rfl rfl nofun
      exact .failed (answered_reads hreads) hbreaks

/-! ### From the handshake to the close -/

/-- What happens between the handshake and the close. -/
inductive Course : List (Nat × Event) → Prop
  | answered {es : List (Nat × Event)} (h : Answered es) : Course es
  | broken {es es' : List (Nat × Event)} (h : Answered es) (h' : Breaks es') : Course (es ++ es')

theorem Course.prepend (h : Answered es) (h' : Course es') : Course (es ++ es') := by
  cases h' with
  | answered h' => exact .answered (h.append h')
  | broken h' hbreaks =>
    rw [← List.append_assoc]
    exact .broken (h.append h') hbreaks

/-- An exchange behind which the loop goes on leaves nothing undone. -/
theorem exists_answered {outcome : Outcome} {idleTimeout : Option Nat}
    (hp : ∃ p, c.client.subject.peer? = some p)
    (hx : c.exchange s idleTimeout = (outcome, c')) (ho : ∀ e, outcome ≠ .failed e) :
    ∃ es, Client.Later c.client c'.client es ∧ Answered es ∧
      LeavesContexts s c.client.subject.remote c.handled es ∧
        c'.handled = c.handled + (requestsIn es).length := by
  obtain ⟨es, hlater, hexchanged, hcount⟩ := later_exchange (s := s) idleTimeout hp
  have hleaves : LeavesContexts s c.client.subject.remote c.handled es := hexchanged.leavesContexts
  rw [hx] at hlater hexchanged hcount
  cases exchangeLog_of_exchanged hexchanged with
  | answered h _ => exact ⟨es, hlater, h, hleaves, hcount⟩
  | failed => exact absurd rfl (ho _)

/-- **A connection that is closed has taken its course**, and is closed behind it. -/
theorem course_serve (hp : ∃ p, c.client.subject.peer? = some p)
    (hclosed : (serve s stage c).1 = .closed) :
    ∃ last es, serve s stage c = close last ∧ Client.Later c.client last.client es ∧ Course es ∧
      LeavesContexts s c.client.subject.remote c.handled es := by
  fun_induction serve s stage c with
  | case1 stage c hover => cases hclosed
  | case2 stage c hover hconn =>
    exact ⟨c, [], rfl, Client.later_refl hp, .answered answered_nil,
      leavesContexts_of_nil ⟨rfl, rfl⟩⟩
  | case3 stage c hover hconn c' hx ih =>
    obtain ⟨es, hlater, hanswered, hleaves, hcount⟩ :=
      exists_answered hp hx (fun _ ho => by cases ho)
    obtain ⟨last, es', hclose, hlast, hcourse, hleaves'⟩ := ih hlater.peer hclosed
    rw [hlater.remote, hcount] at hleaves'
    exact ⟨last, _, hclose, hlater.trans hlast, hcourse.prepend hanswered,
      hleaves.append hleaves'⟩
  | case5 stage c hover hconn c' hx stage' hlook ih =>
    obtain ⟨es, hlater, hanswered, hleaves, hcount⟩ :=
      exists_answered hp hx (fun _ ho => by cases ho)
    have hpass : Client.Later c.client (c'.onTimeline (·.pass s.settings.backoff)).client es :=
      ⟨hlater.peer, hlater.remote, hlater.timeline.trans_nil (Timeline.later_pass ..)⟩
    have hcount' : (c'.onTimeline (·.pass s.settings.backoff)).handled =
        c.handled + (requestsIn es).length := hcount
    obtain ⟨last, es', hclose, hlast, hcourse, hleaves'⟩ := ih hpass.peer hclosed
    rw [hpass.remote, hcount'] at hleaves'
    exact ⟨last, _, hclose, hpass.trans hlast, hcourse.prepend hanswered, hleaves.append hleaves'⟩
  -- The loop ends with this exchange.
  | case4 stage c hover hconn c' hx | case6 stage c hover hconn c' hx
  | case7 stage c hover hconn c' hx | case8 stage c hover hconn c' hx =>
    obtain ⟨es, hlater, hanswered, hleaves, -⟩ := exists_answered hp hx (fun _ ho => by cases ho)
    exact ⟨c', es, rfl, hlater, .answered hanswered, hleaves⟩
  | case9 stage c hover hconn e c' hx =>
    obtain ⟨es, hlater, hexchanged, -⟩ := later_exchange (stage.idleTimeout s.settings) hp
    have hleaves : LeavesContexts s c.client.subject.remote c.handled es :=
      hexchanged.leavesContexts
    rw [hx] at hlater hexchanged
    have hnotify : Client.Later c'.client (c'.notify (.exchangeFailed e)).client
        [(c'.timeline.now, .notice (.exchangeFailed e))] :=
      ⟨hlater.peer, rfl, Timeline.later_record ..⟩
    refine ⟨_, _, rfl, hlater.trans hnotify, ?_, hleaves.append (leavesContexts_of_nil ⟨rfl, rfl⟩)⟩
    cases exchangeLog_of_exchanged hexchanged with
    | answered _ ho => exact absurd rfl (ho e)
    | failed hanswered hbreaks =>
      rw [List.append_assoc]
      exact .broken hanswered (hbreaks _)
  | case10 stage c hover hconn c' hx => cases hclosed

/-! ### What a course comes to -/

theorem mem_requestsIn_of_handed {m : Nat} {q : Request} (h : (m, .handed q) ∈ es) :
    q ∈ requestsIn es := by
  refine List.mem_filterMap.mpr ⟨.handed q, ?_, rfl⟩
  exact List.mem_flatMap.mpr ⟨_, h, List.mem_singleton.mpr rfl⟩

/-- Before anything has failed, all replies could be written. -/
theorem Answered.encode_eq_ok (h : Answered es) {reply : Reply}
    (hreply : reply ∈ (contextsIn es).filterMap Context.reply?) : reply.encode.1 = .ok () := by
  obtain ⟨context, hcontext, hr⟩ := List.mem_filterMap.mp hreply
  obtain ⟨⟨m, e⟩, hmem, he⟩ := List.mem_filterMap.mp hcontext
  cases e with
  | answered c =>
    obtain rfl := Option.some.inj he
    cases hencode : reply.encode.1 with
    | ok _ => rfl
    | error error => exact absurd (.unwritable hr hencode) (h.sound _ hmem).1
  | wire | mark | notice | handed => cases he

namespace Course

theorem frame (h : Course es) : ∀ e ∈ es, ¬ e.2.IsFrame := by
  cases h with
  | answered h => exact fun e he => (h.sound e he).2
  | broken h hbreaks =>
    exact List.forall_mem_append.mpr ⟨fun e he => (h.sound e he).2, hbreaks.frame⟩

/-- Behind a failure nothing is read, written or handed to the pipeline. -/
theorem order (h : Course es) {before after : List (Nat × Event)} {e : Nat × Event}
    (hes : es = before ++ e :: after) (he : e.2.IsFailure) :
    ∀ x ∈ after, ¬ x.2.IsWork := by
  cases h with
  | answered h =>
    have hmem : e ∈ es := by
      rw [hes]
      exact List.mem_append_right _ List.mem_cons_self
    exact absurd he (h.sound e hmem).1
  | @broken es es' h hbreaks =>
    obtain ⟨front, first, behind, rfl, hfront, hbehind⟩ := hbreaks.order
    -- No failure stands in front of the first one, so what follows `e` follows that one.
    have hsound : ∀ x ∈ es ++ front, ¬ x.2.IsFailure :=
      List.forall_mem_append.mpr ⟨fun x hx => (h.sound x hx).1, hfront⟩
    rw [← List.append_assoc, List.append_eq_append_iff] at hes
    obtain ⟨middle, -, hmiddle⟩ | ⟨middle, hmiddle, hrest⟩ := hes
    · cases middle with
      | nil =>
        obtain ⟨-, rfl⟩ := List.cons.inj hmiddle
        exact hbehind
      | cons y middle =>
        obtain ⟨-, rfl⟩ := List.cons.inj hmiddle
        exact fun x hx => hbehind x (List.mem_append_right _ (List.mem_cons_of_mem _ hx))
    · cases middle with
      | nil =>
        obtain ⟨-, rfl⟩ := List.cons.inj hrest
        exact hbehind
      | cons y middle =>
        obtain ⟨rfl, -⟩ := List.cons.inj hrest
        have hmem : e ∈ es ++ front := by
          rw [hmiddle]
          exact List.mem_append_right _ List.mem_cons_self
        exact absurd he (hsound e hmem)

/-- The octets that the client has accepted are those of the first replies, and of the next one at
most a part. -/
theorem output (h : Course es) :
    ∃ sent cut part, (contextsIn es).filterMap Context.reply? = sent ++ cut.toList ∧
      octetsIn es = sent.flatMap (·.encode.2) ++ part ∧
      (∀ reply ∈ sent, reply.encode.1 = .ok ()) ∧ (cut = none → part = []) ∧
      ∀ reply, cut = some reply →
        (∃ error, reply.encode.1 = .error error) ∧ part = [] ∨
          reply.encode.1 = .ok () ∧ (∃ rest, rest ≠ [] ∧ reply.encode.2 = part ++ rest) ∧
            ∃ e ∈ es, e.2.IsLostWrite := by
  cases h with
  | answered h =>
    refine ⟨_, none, [], (List.append_nil _).symm, ?_, fun reply => h.encode_eq_ok,
      fun _ => rfl, nofun⟩
    rw [List.append_nil, h.octets]
  | @broken es es' h hbreaks =>
    rw [contextsIn_append, octetsIn_append, h.octets, List.filterMap_append]
    rcases hbreaks.output with ⟨hcontexts, hoctets⟩ | ⟨context, reply, hcontexts, hreply, hcut⟩
    · rw [hcontexts, hoctets]
      exact ⟨_, none, [], rfl, rfl, fun reply => h.encode_eq_ok, fun _ => rfl, nofun⟩
    · rw [hcontexts, List.filterMap_cons, hreply]
      refine ⟨_, some reply, octetsIn es', rfl, rfl, fun reply => h.encode_eq_ok, nofun, ?_⟩
      rintro _ ⟨⟩
      cases hcut with
      | unwritable hencode hoctets => exact .inl ⟨⟨_, hencode⟩, hoctets⟩
      | lost hencode hrest hoctets hlost =>
        obtain ⟨e, he, hlost⟩ := hlost
        exact .inr ⟨hencode, ⟨_, hrest, hoctets⟩, e, List.mem_append_right _ he, hlost⟩

end Course

end Connection

end HttpWire
