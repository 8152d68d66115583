import HttpWire.Proofs.Lists
import HttpWire.Server.Lifecycle

/-!
# A server keeps its books

The moves of loops, of connections and of whoever waits come in any order.  `Next` says once what
each of them does, and `Books` what all of them keep: a loop has started one connection for each
client that it has received, but for the one that it holds, and the count is that of the loops and
connections that have not ended.  A loop that holds a client has not ended, so the count cannot come
to zero between a client's arrival and the start of its connection.  `accounted` puts together what
follows for every run of moves.
-/

namespace HttpWire

namespace ServerState

/-- What a move does in a state in which it is possible. -/
inductive Next (s : ServerState) : ServerMove → ServerState → Prop
  /-- A loop passes over an error. -/
  | passOver {i loop e rest} (hi : s.loops[i]? = some loop) (hphase : loop.phase = .accepting)
    (hcoming : loop.coming = .error e :: rest) :
    Next s (.accept i) { s with loops := s.loops.set i { loop with coming := rest } }
  /-- A loop receives a client. -/
  | receive {i loop client rest} (hi : s.loops[i]? = some loop)
    (hphase : loop.phase = .accepting) (hcoming : loop.coming = .ok client :: rest) :
    Next s (.accept i)
      { s with loops := s.loops.set i { loop with coming := rest, phase := .holding client } }
  /-- A loop starts a connection. -/
  | start {i loop client} (hi : s.loops[i]? = some loop) (hphase : loop.phase = .holding client) :
    Next s (.start i)
      { s with
        loops := s.loops.set i
          { loop with phase := .accepting, connections := loop.connections + 1 }
        started := s.started ++ [(⟨i, loop.connections⟩, client)]
        running := s.running ++ [⟨i, loop.connections⟩]
        tracked := s.tracked + 1 }
  | cancel : Next s .cancel { s with cancelled := true }
  | stop {i loop} (hi : s.loops[i]? = some loop) (hphase : loop.phase = .accepting)
    (hcancelled : s.cancelled = true) :
    Next s (.stop i)
      { s with loops := s.loops.set i { loop with phase := .stopped }, tracked := s.tracked - 1 }
  | finish {id} (hid : id ∈ s.running) :
    Next s (.finish id) { s with running := s.running.erase id, tracked := s.tracked - 1 }
  | close (hcancelled : s.cancelled = true) (hwaiter : s.waiter = .forCancellation) :
    Next s .close { s with waiter := .forTasks }
  | release (hwaiter : s.waiter = .forTasks) (htracked : s.tracked = 0) :
    Next s .release { s with waiter := .released }

variable {s s' : ServerState} {move : ServerMove} {i : Nat} {loop : AcceptLoop}

theorem next_of_accept (h : s.accept i = some s') : Next s (.accept i) s' := by
  unfold accept at h
  split at h
  · cases h
  · next loop hi =>
    split at h
    · next hphase hcoming =>
      cases h
      exact .passOver hi hphase hcoming
    · next hphase hcoming =>
      cases h
      exact .receive hi hphase hcoming
    · cases h

theorem next_of_start (h : s.start i = some s') : Next s (.start i) s' := by
  unfold start at h
  split at h
  · cases h
  · next loop hi =>
    split at h
    · next hphase =>
      cases h
      exact .start hi hphase
    · cases h

theorem next_of_stop (h : s.stop i = some s') : Next s (.stop i) s' := by
  unfold stop at h
  split at h
  · cases h
  · next loop hi =>
    split at h
    · next hphase =>
      split at h
      · next hcancelled =>
        cases h
        exact .stop hi hphase hcancelled
      · cases h
    · cases h

/-- A move that is possible does what it is for, and nothing else. -/
theorem next_of_step (h : s.step move = some s') : Next s move s' := by
  cases move with
  | accept i => exact next_of_accept h
  | start i => exact next_of_start h
  | cancel =>
    cases h
    exact .cancel
  | stop i => exact next_of_stop h
  | finish id =>
    rw [step, finish, Option.ite_none_right_eq_some] at h
    obtain ⟨hid, ⟨⟩⟩ := h
    exact .finish hid
  | close =>
    rw [step, close, Option.ite_none_right_eq_some, Bool.and_eq_true, beq_iff_eq] at h
    obtain ⟨⟨hcancelled, hwaiter⟩, ⟨⟩⟩ := h
    exact .close hcancelled hwaiter
  | release =>
    rw [step, release, Option.ite_none_right_eq_some, isStopped, Bool.and_eq_true, beq_iff_eq,
      beq_iff_eq] at h
    obtain ⟨⟨hwaiter, htracked⟩, ⟨⟩⟩ := h
    exact .release hwaiter htracked

/-! ### Loops among loops -/

/-- The number of loops that have not stopped. -/
def activeLoops (loops : List AcceptLoop) : Nat :=
  loops.countP fun loop => !loop.isStopped

theorem activeLoops_pos {loops : List AcceptLoop} (hi : loops[i]? = some loop)
    (hactive : loop.isStopped = false) : 0 < activeLoops loops := by
  rw [activeLoops, List.countP_pos_iff]
  refine ⟨loop, List.mem_of_getElem? hi, ?_⟩
  rw [hactive, Bool.not_false]

/-- A loop that goes on being active leaves the number as it is. -/
theorem activeLoops_set {loops : List AcceptLoop} {loop' : AcceptLoop}
    (hi : loops[i]? = some loop) (hactive : loop.isStopped = false)
    (hactive' : loop'.isStopped = false) : activeLoops (loops.set i loop') = activeLoops loops := by
  have hpos := activeLoops_pos hi hactive
  obtain ⟨hlt, hget⟩ := List.getElem?_eq_some_iff.mp hi
  rw [activeLoops, List.countP_set hlt, hget, hactive, hactive', Bool.not_false, if_pos rfl]
  rw [activeLoops] at hpos ⊢
  omega

/-- A loop that stops is no longer counted. -/
theorem activeLoops_set_stopped {loops : List AcceptLoop} {loop' : AcceptLoop}
    (hi : loops[i]? = some loop) (hactive : loop.isStopped = false)
    (hstopped : loop'.isStopped = true) :
    activeLoops (loops.set i loop') = activeLoops loops - 1 := by
  obtain ⟨hlt, hget⟩ := List.getElem?_eq_some_iff.mp hi
  rw [activeLoops, List.countP_set hlt, hget, hactive, hstopped, Bool.not_false, Bool.not_true,
    if_pos rfl, if_neg Bool.false_ne_true, activeLoops]
  omega

theorem isStopped_of_accepting (h : loop.phase = .accepting) : loop.isStopped = false := by
  rw [AcceptLoop.isStopped, h]

theorem isStopped_of_holding {client : Client} (h : loop.phase = .holding client) :
    loop.isStopped = false := by
  rw [AcceptLoop.isStopped, h]

theorem isStopped_iff : loop.isStopped = true ↔ loop.phase = .stopped := by
  rw [AcceptLoop.isStopped]
  cases loop.phase <;> simp

/-! ### The books -/

/-- The clients among the results that a loop has taken. -/
def clientsOf (results : List (Except IoError Client)) : List Client :=
  results.filterMap Except.toOption

/-- A loop has taken a front part of the results of its listener, and has started one connection
for each client in it, but for the one that it holds. -/
structure Account (results : List (Except IoError Client)) (loop : AcceptLoop)
    (connections : List (ConnectionId × Client)) : Prop where
  received : ∃ taken, results = taken ++ loop.coming ∧
    clientsOf taken = connections.map (·.2) ++ loop.held?.toList
  length : connections.length = loop.connections

/-- What is true of a server behind the moves so far. -/
structure Books (coming : List (List (Except IoError Client))) (moves : List ServerMove)
    (s : ServerState) : Prop where
  length : s.loops.length = coming.length
  account : ∀ {i : Nat} {results loop}, coming[i]? = some results → s.loops[i]? = some loop →
    Account results loop (s.connectionsOf i)
  numbers : ∀ i, (s.connectionsOf i).map (·.1.number) = List.range (s.connectionsOf i).length
  nodup : (s.started.map (·.1)).Nodup
  tracked : s.tracked = activeLoops s.loops + s.running.length
  stopped : ∀ {i : Nat} {loop : AcceptLoop}, s.loops[i]? = some loop → loop.isStopped = true →
    s.cancelled = true ∧ .stop i ∈ moves
  ended : ∀ c ∈ s.started, c.1 ∈ s.running ∨ .finish c.1 ∈ moves
  cancelled : s.waiter ≠ .forCancellation → s.cancelled = true
  released : s.waiter = .released → s.tracked = 0

theorem books_initial (coming : List (List (Except IoError Client))) :
    Books coming [] (initial coming) where
  length := List.length_map ..
  account {i results loop} hi hloop := by
    rw [initial, List.getElem?_map, hi] at hloop
    obtain rfl := Option.some.inj hloop
    exact ⟨⟨[], rfl, rfl⟩, rfl⟩
  numbers _ := rfl
  nodup := List.nodup_nil
  tracked := by
    have hactive : activeLoops (coming.map fun coming => { coming }) = coming.length := by
      rw [activeLoops, List.countP_map]
      exact List.countP_eq_length.mpr fun _ _ => rfl
    rw [initial, hactive]
    rfl
  stopped {i loop} hloop hstopped := by
    rw [initial, List.getElem?_map, Option.map_eq_some_iff] at hloop
    obtain ⟨results, -, rfl⟩ := hloop
    cases hstopped
  ended c hc := absurd hc List.not_mem_nil
  cancelled h := absurd rfl h
  released h := Waiter.noConfusion h

variable {coming : List (List (Except IoError Client))} {moves : List ServerMove}

theorem clientsOf_append (a b : List (Except IoError Client)) :
    clientsOf (a ++ b) = clientsOf a ++ clientsOf b :=
  List.filterMap_append ..

/-- Taking an error changes only what is still to come. -/
theorem Account.passOver {results rest : List (Except IoError Client)} {e : IoError}
    {connections : List (ConnectionId × Client)} (h : Account results loop connections)
    (hcoming : loop.coming = .error e :: rest) :
    Account results { loop with coming := rest } connections where
  received := by
    obtain ⟨taken, hresults, hclients⟩ := h.received
    refine ⟨taken ++ [.error e], ?_, ?_⟩
    · rw [hresults, hcoming, List.append_assoc, List.singleton_append]
    · rw [clientsOf_append, hclients]
      exact List.append_nil _
  length := h.length

/-- A client that is taken is held. -/
theorem Account.receive {results rest : List (Except IoError Client)} {client : Client}
    {connections : List (ConnectionId × Client)} (h : Account results loop connections)
    (hphase : loop.phase = .accepting) (hcoming : loop.coming = .ok client :: rest) :
    Account results { loop with coming := rest, phase := .holding client } connections where
  received := by
    obtain ⟨taken, hresults, hclients⟩ := h.received
    refine ⟨taken ++ [.ok client], ?_, ?_⟩
    · rw [hresults, hcoming, List.append_assoc, List.singleton_append]
    · rw [clientsOf_append, hclients, AcceptLoop.held?, hphase]
      exact congrArg (· ++ [client]) (List.append_nil _)
  length := h.length

/-- The client that was held is that of the connection that is started. -/
theorem Account.start {results : List (Except IoError Client)} {client : Client}
    {connections : List (ConnectionId × Client)} {id : ConnectionId}
    (h : Account results loop connections) (hphase : loop.phase = .holding client) :
    Account results { loop with phase := .accepting, connections := loop.connections + 1 }
      (connections ++ [(id, client)]) where
  received := by
    obtain ⟨taken, hresults, hclients⟩ := h.received
    refine ⟨taken, hresults, ?_⟩
    rw [hclients, AcceptLoop.held?, hphase, List.map_append]
    exact (List.append_nil _).symm
  length := by rw [List.length_append, h.length]; rfl

/-- A loop that stops holds no client. -/
theorem Account.stop {results : List (Except IoError Client)}
    {connections : List (ConnectionId × Client)} (h : Account results loop connections)
    (hphase : loop.phase = .accepting) :
    Account results { loop with phase := .stopped } connections where
  received := by
    obtain ⟨taken, hresults, hclients⟩ := h.received
    refine ⟨taken, hresults, ?_⟩
    rw [hclients, AcceptLoop.held?, hphase]
    rfl
  length := h.length

namespace Books

/-- A loop that there is has a listener. -/
theorem exists_account (h : Books coming moves s) (hi : s.loops[i]? = some loop) :
    ∃ results, coming[i]? = some results ∧ Account results loop (s.connectionsOf i) := by
  obtain ⟨hlt, -⟩ := List.getElem?_eq_some_iff.mp hi
  rw [h.length] at hlt
  have hresults := List.getElem?_eq_getElem hlt
  exact ⟨_, hresults, h.account hresults hi⟩

/-- More moves have been made that changed nothing. -/
theorem append (h : Books coming moves s) (more : List ServerMove) :
    Books coming (moves ++ more) s :=
  { h with
    stopped := fun hloop hstopped =>
      (h.stopped hloop hstopped).imp_right (List.mem_append_left _)
    ended := fun c hc => (h.ended c hc).imp_right (List.mem_append_left _) }

/-- Changing one loop that stays active, with its books in order, keeps the others in order. -/
theorem setLoop {loop' : AcceptLoop} (h : Books coming moves s) (hi : s.loops[i]? = some loop)
    (hactive : loop.isStopped = false) (hactive' : loop'.isStopped = false)
    (haccount : ∀ {results}, Account results loop (s.connectionsOf i) →
      Account results loop' (s.connectionsOf i)) :
    Books coming moves { s with loops := s.loops.set i loop' } :=
  { h with
    length := List.length_set.trans h.length
    account := fun {j results loop₁} hj hloop => by
      rcases getElem?_set_cases hloop with ⟨rfl, rfl⟩ | ⟨-, hloop⟩
      · exact haccount (h.account hj hi)
      · exact h.account hj hloop
    tracked := by
      show s.tracked = activeLoops (s.loops.set i loop') + s.running.length
      rw [activeLoops_set hi hactive hactive', h.tracked]
    stopped := fun {j loop₁} hloop hstopped => by
      rcases getElem?_set_cases hloop with ⟨rfl, rfl⟩ | ⟨-, hloop⟩
      · rw [hactive'] at hstopped
        cases hstopped
      · exact h.stopped hloop hstopped }

/-- Nobody has been released as long as there is an active loop. -/
theorem not_released (h : Books coming moves s) (hi : s.loops[i]? = some loop)
    (hactive : loop.isStopped = false) : s.waiter ≠ .released := by
  intro hwaiter
  have hpos := activeLoops_pos hi hactive
  have htracked := h.tracked
  rw [h.released hwaiter] at htracked
  omega

/-- The connections of a loop are numbered from zero, so the next number is new. -/
theorem number_lt (h : Books coming moves s) {c : ConnectionId × Client}
    (hc : c ∈ s.connectionsOf i) : c.1.number < (s.connectionsOf i).length := by
  rw [← List.mem_range, ← h.numbers i]
  exact List.mem_map_of_mem hc

/-- Starting a connection for a client that is held. -/
theorem start {client : Client} (h : Books coming moves s) (hi : s.loops[i]? = some loop)
    (hphase : loop.phase = .holding client) :
    Books coming moves
      { s with
        loops := s.loops.set i
          { loop with phase := .accepting, connections := loop.connections + 1 }
        started := s.started ++ [(⟨i, loop.connections⟩, client)]
        running := s.running ++ [⟨i, loop.connections⟩]
        tracked := s.tracked + 1 } := by
  have hactive := isStopped_of_holding hphase
  obtain ⟨results, hresults, haccount⟩ := h.exists_account hi
  -- The connections of the loop are those before and the new one; other loops keep theirs.
  have hconnections (j : Nat) :
      (s.started ++ [(ConnectionId.mk i loop.connections, client)]).filter (·.1.loop = j) =
        s.connectionsOf j ++ if i = j then [(⟨i, loop.connections⟩, client)] else [] := by
    rw [List.filter_append, ← connectionsOf, List.filter_cons, List.filter_nil]
    simp only [decide_eq_true_eq]
  exact
    { h with
      length := List.length_set.trans h.length
      account := fun {j results' loop'} hj hloop => by
        show Account results' loop' (List.filter _ _)
        rw [hconnections]
        rcases getElem?_set_cases hloop with ⟨rfl, rfl⟩ | ⟨hne, hloop⟩
        · rw [if_pos rfl]
          exact (h.account hj hi).start hphase
        · rw [if_neg (Ne.symm hne), List.append_nil]
          exact h.account hj hloop
      numbers := fun j => by
        show List.map _ (List.filter _ _) = List.range (List.filter _ _).length
        rw [hconnections]
        by_cases hij : i = j
        · subst hij
          rw [if_pos rfl, List.map_append, h.numbers, List.length_append, haccount.length]
          exact List.range_succ.symm
        · rw [if_neg hij, List.append_nil]
          exact h.numbers j
      nodup := by
        rw [List.map_append, List.nodup_append]
        refine ⟨h.nodup, List.pairwise_singleton _ _, fun id hid id' hid' => ?_⟩
        obtain ⟨c, hc, rfl⟩ := List.mem_map.mp hid
        obtain rfl := List.mem_singleton.mp hid'
        intro hid
        have hlt : c.1.number < (s.connectionsOf i).length := by
          refine h.number_lt (List.mem_filter.mpr ⟨hc, ?_⟩)
          rw [hid]
          exact decide_eq_true rfl
        rw [hid, haccount.length] at hlt
        exact Nat.lt_irrefl _ hlt
      tracked := by
        show s.tracked + 1 = activeLoops (s.loops.set i _) + (s.running ++ [_]).length
        rw [activeLoops_set hi hactive rfl, h.tracked, List.length_append, List.length_singleton]
        omega
      stopped := fun {j loop'} hloop hstopped => by
        rcases getElem?_set_cases hloop with ⟨rfl, rfl⟩ | ⟨-, hloop⟩
        · cases hstopped
        · exact h.stopped hloop hstopped
      ended := fun c hc => by
        rcases List.mem_append.mp hc with hc | hc
        · exact (h.ended c hc).imp_left (List.mem_append_left _)
        · obtain rfl := List.mem_singleton.mp hc
          exact .inl (List.mem_append_right _ (List.mem_singleton_self _))
      released := fun hwaiter => absurd hwaiter (h.not_released hi hactive) }

/-- A loop that stops is taken from the count. -/
theorem stop (h : Books coming moves s) (hi : s.loops[i]? = some loop)
    (hphase : loop.phase = .accepting) (hcancelled : s.cancelled = true) :
    Books coming (moves ++ [.stop i])
      { s with
        loops := s.loops.set i { loop with phase := .stopped }, tracked := s.tracked - 1 } := by
  have hactive := isStopped_of_accepting hphase
  have hmove := h.append [.stop i]
  exact
    { hmove with
      length := List.length_set.trans h.length
      account := fun {j results loop'} hj hloop => by
        rcases getElem?_set_cases hloop with ⟨rfl, rfl⟩ | ⟨-, hloop⟩
        · exact (h.account hj hi).stop hphase
        · exact h.account hj hloop
      tracked := by
        show s.tracked - 1 = activeLoops (s.loops.set i _) + s.running.length
        have hpos := activeLoops_pos hi hactive
        rw [activeLoops_set_stopped hi hactive rfl, h.tracked]
        omega
      stopped := fun {j loop'} hloop hstopped => by
        rcases getElem?_set_cases hloop with ⟨rfl, rfl⟩ | ⟨-, hloop⟩
        · exact ⟨hcancelled, List.mem_append_right _ (List.mem_singleton_self _)⟩
        · exact hmove.stopped hloop hstopped
      released := fun hwaiter => absurd hwaiter (h.not_released hi hactive) }

/-- A connection that ends is taken from the count. -/
theorem finish {id : ConnectionId} (h : Books coming moves s) (hid : id ∈ s.running) :
    Books coming (moves ++ [.finish id])
      { s with running := s.running.erase id, tracked := s.tracked - 1 } :=
  { h.append [.finish id] with
    tracked := by
      show s.tracked - 1 = activeLoops s.loops + (s.running.erase id).length
      have hpos := List.length_pos_of_mem hid
      rw [List.length_erase_of_mem hid, h.tracked]
      omega
    ended := fun c hc => by
      by_cases hc' : c.1 = id
      · rw [hc']
        exact .inr (List.mem_append_right _ (List.mem_singleton_self _))
      · refine (h.ended c hc).imp ?_ (List.mem_append_left _)
        exact (List.mem_erase_of_ne hc').mpr
    released := fun hwaiter => by
      show s.tracked - 1 = 0
      rw [h.released hwaiter] }

/-- **Every move keeps the books.** -/
theorem next (h : Books coming moves s) (hnext : Next s move s') :
    Books coming (moves ++ [move]) s' := by
  have hmove := h.append [move]
  cases hnext with
  | passOver hi hphase hcoming =>
    have hactive := isStopped_of_accepting hphase
    exact hmove.setLoop hi hactive hactive fun haccount => haccount.passOver hcoming
  | receive hi hphase hcoming =>
    exact hmove.setLoop hi (isStopped_of_accepting hphase) rfl fun haccount =>
      haccount.receive hphase hcoming
  | start hi hphase => exact hmove.start hi hphase
  | cancel =>
    exact
      { hmove with
        stopped := fun hloop hstopped => ⟨rfl, (hmove.stopped hloop hstopped).2⟩
        cancelled := fun _ => rfl }
  | stop hi hphase hcancelled => exact h.stop hi hphase hcancelled
  | finish hid => exact h.finish hid
  | close hcancelled hwaiter =>
    exact { hmove with cancelled := fun _ => hcancelled, released := nofun }
  | release hwaiter htracked =>
    have hcancelled : s.cancelled = true := by
      apply h.cancelled
      rw [hwaiter]
      exact Waiter.noConfusion
    exact { hmove with cancelled := fun _ => hcancelled, released := fun _ => htracked }

end Books

/-! ### Runs of moves -/

theorem steps_concat {after : List ServerMove} :
    s.steps (after ++ [move]) = (s.steps after).bind (·.step move) := by
  rw [steps, List.foldlM_append]
  simp only [List.foldlM_cons, List.foldlM_nil, bind_pure]
  rfl

/-- Every run of moves keeps the books. -/
theorem books_of_steps (h : (initial coming).steps moves = some s) : Books coming moves s := by
  induction moves using List.reverseRecOn generalizing s with
  | nil =>
    cases h
    exact books_initial coming
  | append_singleton moves move ih =>
    rw [steps_concat, Option.bind_eq_some_iff] at h
    obtain ⟨s₁, hmoves, hmove⟩ := h
    exact (ih hmoves).next (next_of_step hmove)

/-- A loop that has stopped does nothing any more. -/
theorem stopped_of_next (hnext : Next s move s') (hi : s.loops[i]? = some loop)
    (hstopped : loop.isStopped = true) :
    s'.loops[i]? = some loop ∧ s'.connectionsOf i = s.connectionsOf i := by
  -- A loop that moves has not stopped, so it is another one.
  have hother {j : Nat} {loop₁ loop' : AcceptLoop} (hj : s.loops[j]? = some loop₁)
      (hactive : loop₁.isStopped = false) :
      j ≠ i ∧ (s.loops.set j loop')[i]? = some loop := by
    have hne : j ≠ i := by
      rintro rfl
      rw [Option.some.inj (hj.symm.trans hi), hstopped] at hactive
      cases hactive
    exact ⟨hne, (List.getElem?_set_ne hne).trans hi⟩
  cases hnext with
  | passOver hj hphase _ => exact ⟨(hother hj (isStopped_of_accepting hphase)).2, rfl⟩
  | receive hj hphase _ => exact ⟨(hother hj (isStopped_of_accepting hphase)).2, rfl⟩
  | stop hj hphase _ => exact ⟨(hother hj (isStopped_of_accepting hphase)).2, rfl⟩
  | start hj hphase =>
    obtain ⟨hne, hloop⟩ := hother hj (isStopped_of_holding hphase)
    refine ⟨hloop, ?_⟩
    rw [connectionsOf, List.filter_append, List.filter_cons, List.filter_nil,
      if_neg (by simpa using hne), List.append_nil, connectionsOf]
  | cancel | finish | close | release => exact ⟨hi, rfl⟩

theorem stopped_of_steps {after : List ServerMove} (h : s.steps after = some s')
    (hi : s.loops[i]? = some loop) (hstopped : loop.isStopped = true) :
    s'.loops[i]? = some loop ∧ s'.connectionsOf i = s.connectionsOf i := by
  induction after using List.reverseRecOn generalizing s' with
  | nil =>
    cases h
    exact ⟨hi, rfl⟩
  | append_singleton after move ih =>
    rw [steps_concat, Option.bind_eq_some_iff] at h
    obtain ⟨s₁, hafter, hmove⟩ := h
    obtain ⟨hloop, hconnections⟩ := ih hafter
    obtain ⟨hloop', hconnections'⟩ := stopped_of_next (next_of_step hmove) hloop hstopped
    exact ⟨hloop', hconnections'.trans hconnections⟩

theorem accept_eq_none (hi : s.loops[i]? = some loop) (hstopped : loop.isStopped = true) :
    s.accept i = none := by
  simp only [accept, hi, isStopped_iff.mp hstopped]

theorem held?_eq_some_iff {client : Client} :
    loop.held? = some client ↔ loop.phase = .holding client := by
  rw [AcceptLoop.held?]
  cases loop.phase <;> simp

/-- Nothing keeps a loop from starting the connection for the client that it holds. -/
theorem start_held {client : Client} (hi : s.loops[i]? = some loop)
    (hphase : loop.phase = .holding client) :
    ∃ s₁, s.start i = some s₁ ∧
      s₁.started = s.started ++ [(⟨i, loop.connections⟩, client)] := by
  rw [start, hi]
  dsimp only
  rw [hphase]
  exact ⟨_, rfl, rfl⟩

theorem steps_cons {rest : List ServerMove} :
    s.steps (move :: rest) = (s.step move).bind (·.steps rest) :=
  List.foldlM_cons

/-- A loop that is accepting gets past any number of errors to the client behind them, which gets
the next connection. -/
theorem started_behind_errors {errors : List IoError} {client : Client}
    {rest : List (Except IoError Client)} (hi : s.loops[i]? = some loop)
    (hphase : loop.phase = .accepting)
    (hcoming : loop.coming = errors.map .error ++ .ok client :: rest) :
    ∃ s₁, s.steps (List.replicate (errors.length + 1) (.accept i) ++ [.start i]) = some s₁ ∧
      s₁.started = s.started ++ [(⟨i, loop.connections⟩, client)] := by
  obtain ⟨hlt, -⟩ := List.getElem?_eq_some_iff.mp hi
  induction errors generalizing s loop with
  | nil =>
    have hstep : s.step (.accept i) = some { s with
        loops := s.loops.set i { loop with coming := rest, phase := .holding client } } := by
      simp only [step, accept, hi, hphase, hcoming, List.map_nil, List.nil_append]
    have hi' : (s.loops.set i { loop with coming := rest, phase := .holding client })[i]? =
        some { loop with coming := rest, phase := .holding client } := List.getElem?_set_self hlt
    obtain ⟨s₁, hs₁, hstarted⟩ := @start_held { s with loops := s.loops.set i _ } i _ client hi' rfl
    refine ⟨s₁, ?_, hstarted⟩
    rw [List.length_nil, List.replicate_one, List.singleton_append, steps_cons, hstep,
      Option.bind_some, steps_cons, step, hs₁]
    rfl
  | cons e errors ih =>
    have hstep : s.step (.accept i) = some { s with
        loops := s.loops.set i
          { loop with coming := errors.map .error ++ .ok client :: rest } } := by
      simp only [step, accept, hi, hphase, hcoming, List.map_cons, List.cons_append]
    have hlt' : i < (s.loops.set i
        { loop with coming := errors.map .error ++ .ok client :: rest }).length := by
      rwa [List.length_set]
    have hi' : (s.loops.set i { loop with coming := errors.map .error ++ .ok client :: rest })[i]? =
        some { loop with coming := errors.map .error ++ .ok client :: rest } :=
      List.getElem?_set_self hlt
    obtain ⟨s₁, hs₁, hstarted⟩ := @ih { s with loops := s.loops.set i _ } _ hi' hphase rfl hlt'
    refine ⟨s₁, ?_, hstarted⟩
    rw [List.length_cons, List.replicate_succ, List.cons_append, steps_cons, hstep]
    exact hs₁

/-- Once whoever waits has been released, every loop has stopped and every connection has ended. -/
theorem Books.all_ended (h : Books coming moves s) (hwaiter : s.waiter = .released) :
    (∀ loop ∈ s.loops, loop.isStopped = true) ∧ s.running = [] := by
  have htracked := h.tracked
  rw [h.released hwaiter] at htracked
  refine ⟨fun loop hloop => ?_, List.length_eq_zero_iff.mp (by omega)⟩
  obtain ⟨i, hi⟩ := List.mem_iff_getElem?.mp hloop
  cases hactive : loop.isStopped with
  | true => rfl
  | false =>
    have hpos := activeLoops_pos hi hactive
    omega

/-- **A server over any schedule.**  The listeners come up with clients and errors; what the loops,
the connections and whoever waits do comes in any order.  Let the server be in some state, and in
another one later.

Each client that a loop has received is that of one connection of the loop, in the same order, but
for the one that it may be holding, for which nothing keeps it from starting one; no connection is
started twice.  A loop that is accepting gets past any number of errors to the client behind them,
and it stops only if it notices the cancellation, behind which it takes nothing any more.  Whoever
waits goes on only when the server is cancelled, all loops have stopped and all connections that
were started have ended. -/
theorem accounted {before after : List ServerMove}
    (hbefore : (initial coming).steps before = some s) (hafter : s.steps after = some s') :
    (∀ i results, coming[i]? = some results →
      ∃ loop taken, s.loops[i]? = some loop ∧ results = taken ++ loop.coming ∧
        clientsOf taken = (s.connectionsOf i).map (·.2) ++ loop.held?.toList) ∧
    (s.started.map (·.1)).Nodup ∧
    (∀ i loop client, s.loops[i]? = some loop → loop.held? = some client →
      ∃ s₁, s.start i = some s₁ ∧
        s₁.started = s.started ++ [(⟨i, loop.connections⟩, client)]) ∧
    (∀ i loop (errors : List IoError) client rest, s.loops[i]? = some loop → loop.phase = .accepting →
      loop.coming = errors.map .error ++ .ok client :: rest →
      ∃ s₁, s.steps (List.replicate (errors.length + 1) (.accept i) ++ [.start i]) = some s₁ ∧
        s₁.started = s.started ++ [(⟨i, loop.connections⟩, client)]) ∧
    (∀ i loop, s.loops[i]? = some loop → loop.isStopped = true →
      s.cancelled = true ∧ .stop i ∈ before ∧ s'.loops[i]? = some loop ∧
        s'.connectionsOf i = s.connectionsOf i ∧ s'.accept i = none) ∧
    (s.waiter = .released →
      s.cancelled = true ∧ (∀ loop ∈ s.loops, loop.isStopped = true) ∧ s.running = [] ∧
        ∀ c ∈ s.started, .finish c.1 ∈ before) := by
  have hbooks := books_of_steps hbefore
  refine ⟨fun i results hresults => ?_, hbooks.nodup, fun i loop client hi hheld => ?_,
    fun i loop errors client rest hi hphase hcoming => started_behind_errors hi hphase hcoming,
    fun i loop hi hstopped => ?_, fun hwaiter => ?_⟩
  · obtain ⟨hlt, -⟩ := List.getElem?_eq_some_iff.mp hresults
    rw [← hbooks.length] at hlt
    have hi := List.getElem?_eq_getElem hlt
    obtain ⟨taken, htaken, hclients⟩ := (hbooks.account hresults hi).received
    exact ⟨_, taken, hi, htaken, hclients⟩
  · exact start_held hi (held?_eq_some_iff.mp hheld)
  · obtain ⟨hcancelled, hstop⟩ := hbooks.stopped hi hstopped
    obtain ⟨hi', hconnections⟩ := stopped_of_steps hafter hi hstopped
    exact ⟨hcancelled, hstop, hi', hconnections, accept_eq_none hi' hstopped⟩
  · obtain ⟨hstopped, hrunning⟩ := hbooks.all_ended hwaiter
    refine ⟨hbooks.cancelled ?_, hstopped, hrunning, fun c hc => ?_⟩
    · rw [hwaiter]
      exact Waiter.noConfusion
    · refine (hbooks.ended c hc).resolve_left ?_
      rw [hrunning]
      exact List.not_mem_nil

/-- Two listeners; the first one comes up with an error and a client. -/
def errorThenClient : List (List (Except IoError Client)) :=
  [[.error { message := [] }, .ok (.plain {})], []]

/-- The connection for the client is started after the server was cancelled. -/
theorem accounted_late_start :
    ∃ s s', (initial errorThenClient).steps
        [.accept 0, .accept 0, .cancel, .close, .stop 1] = some s ∧
      s.steps [.start 0, .stop 0, .finish ⟨0, 0⟩, .release] = some s' ∧
      (∃ s₁, s.start 0 = some s₁ ∧ s₁.started = [(⟨0, 0⟩, .plain {})]) ∧
      s'.connectionsOf 1 = [] ∧ s'.waiter = .released ∧ s'.running = [] := by
  refine ⟨_, _, rfl, rfl, ?_, ?_, rfl, ?_⟩
  · have h := @accounted _ _ errorThenClient [.accept 0, .accept 0, .cancel, .close, .stop 1] []
      rfl rfl
    exact h.2.2.1 0 _ _ rfl rfl
  · have h := @accounted _ _ errorThenClient [.accept 0, .accept 0, .cancel, .close, .stop 1]
      [.start 0, .stop 0, .finish ⟨0, 0⟩, .release] rfl rfl
    exact (h.2.2.2.2.1 1 _ rfl rfl).2.2.2.1
  · have h := @accounted _ _ errorThenClient [.accept 0, .accept 0, .cancel, .close, .stop 1,
      .start 0, .stop 0, .finish ⟨0, 0⟩, .release] [] rfl rfl
    exact (h.2.2.2.2.2 rfl).2.2.1

end ServerState

end HttpWire
