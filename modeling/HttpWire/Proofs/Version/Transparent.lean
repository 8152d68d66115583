import HttpWire.Proofs.Version.Faithful
import HttpWire.Proofs.Version.Shared

/-!
# A shared cache is the cache

Calls that overlap get what they would get one after the other: in the order in which they return,
`CachingResolver` gives the same answers to them, and asks the other resolver the same questions
(`Ordered`).  No call is left without an answer: as long as one has not returned some call can go on
(`Consistent.exists_move`), and each of them goes on twice at most (`exists_settled`).

Over the parser it makes no difference that spellings share a slot, because the case of letters
makes none to the version.  What is said of a token that is refused is the first spelling of it.
-/

namespace HttpWire

/-- A token that is refused is shown as it is. -/
theorem Version.eq_of_ofToken_error {token : Text} {e : VersionError}
    (h : ofToken token = .error e) : e = ⟨token⟩ := by
  rw [ofToken] at h
  split at h
  · cases h
  · split at h
    · cases hnumbers : ofNumbers? (token.drop 5) with
      | none =>
        rw [hnumbers] at h
        cases h
        rfl
      | some v =>
        rw [hnumbers] at h
        cases h
    · cases h
      rfl

/-! ### One call after the other -/

namespace CachingResolver

/-- What is remembered under a key. -/
def answerUnder? {υ : Type} (c : CachingResolver υ) (key : Text) :
    Option (Except VersionError Version) :=
  (c.slots.find? (·.1 == key)).map (·.2)

variable {υ : Type} {c : CachingResolver υ} {key token : Text}
  {answer : Except VersionError Version}

/-- What is remembered under a new key is remembered under that alone. -/
theorem answerUnder?_concat (h : c.answerUnder? key = none) (inner : υ)
    (answer : Except VersionError Version) (other : Text) :
    (mk inner (c.slots ++ [(key, answer)])).answerUnder? other =
      if key = other then some answer else c.answerUnder? other := by
  rw [answerUnder?, Option.map_eq_none_iff] at h
  rw [answerUnder?, answerUnder?, List.find?_append]
  by_cases hkey : key = other
  · subst hkey
    simp [h]
  · simp [hkey]

variable [VersionResolver υ]

theorem resolve_of_known (h : c.answerUnder? (Text.lower token) = some answer) :
    c.resolve token = (answer, c) := by
  rw [resolve, show c.slot? token = some answer from h]

theorem resolve_of_new (h : c.answerUnder? (Text.lower token) = none) :
    c.resolve token = ((VersionResolver.resolve token c.inner).1,
      { inner := (VersionResolver.resolve token c.inner).2
        slots := c.slots ++ [(Text.lower token, (VersionResolver.resolve token c.inner).1)] }) := by
  rw [resolve, show c.slot? token = none from h]

theorem resolveEach_concat (tokens : List Text) (token : Text) (c : CachingResolver υ) :
    resolveEach (tokens ++ [token]) c =
      ((resolveEach tokens c).1 ++ [((resolveEach tokens c).2.resolve token).1],
        ((resolveEach tokens c).2.resolve token).2) := by
  induction tokens generalizing c with
  | nil => rfl
  | cons t tokens ih =>
    rw [List.cons_append, resolveEach, resolveEach]
    simp only [ih, List.cons_append]

end CachingResolver

/-! ### What calls come to -/

/-- What a cell is filled with. -/
def Cell.answer? : Cell → Option (Except VersionError Version)
  | filled answer => some answer
  | _ => none

/-- The token of a call that has returned, and what it has returned. -/
def CacheCall.result? (c : CacheCall) : Option (Text × Except VersionError Version) :=
  match c.stage with
  | .returned answer => some (c.token, answer)
  | _ => none

/-- The number of moves that a call still has to make. -/
def CallStage.left : CallStage → Nat
  | holding => 2
  | asking => 1
  | waiting => 1
  | returned _ => 0

section

variable {calls : List CacheCall} {j : Nat} {c d : CacheCall}

/-- The number of moves that calls still have to make. -/
def movesLeft : List CacheCall → Nat
  | [] => 0
  | c :: calls => c.stage.left + movesLeft calls

theorem movesLeft_set (hj : calls[j]? = some c) (d : CacheCall) :
    movesLeft (calls.set j d) + c.stage.left = movesLeft calls + d.stage.left := by
  induction calls generalizing j with
  | nil => cases hj
  | cons b calls ih =>
    cases j with
    | zero =>
      obtain rfl : b = c := Option.some.inj hj
      simp only [List.set_cons_zero, movesLeft]
      omega
    | succ j =>
      have h := ih (j := j) hj
      simp only [List.set_cons_succ, movesLeft]
      omega

/-- A call that does not return adds no result. -/
theorem results_set (hj : calls[j]? = some c) (hc : c.result? = none) (hd : d.result? = none) :
    (calls.set j d).filterMap CacheCall.result? = calls.filterMap CacheCall.result? := by
  induction calls generalizing j with
  | nil => cases hj
  | cons b calls ih =>
    cases j with
    | zero =>
      obtain rfl : b = c := Option.some.inj hj
      rw [List.set_cons_zero, List.filterMap_cons_none hd, List.filterMap_cons_none hc]
    | succ j => rw [List.set_cons_succ, List.filterMap_cons, ih (j := j) hj, List.filterMap_cons]

/-- A call that returns adds its result. -/
theorem results_set_returned {result : Text × Except VersionError Version}
    (hj : calls[j]? = some c) (hc : c.result? = none) (hd : d.result? = some result) :
    ((calls.set j d).filterMap CacheCall.result?).Perm
      (calls.filterMap CacheCall.result? ++ [result]) := by
  induction calls generalizing j with
  | nil => cases hj
  | cons b calls ih =>
    cases j with
    | zero =>
      obtain rfl : b = c := Option.some.inj hj
      rw [List.set_cons_zero, List.filterMap_cons_some hd, List.filterMap_cons_none hc]
      exact (List.perm_append_singleton ..).symm
    | succ j =>
      have h := ih (j := j) hj
      rw [List.set_cons_succ]
      cases hb : b.result? with
      | none => rwa [List.filterMap_cons_none hb, List.filterMap_cons_none hb]
      | some r =>
        rw [List.filterMap_cons_some hb, List.filterMap_cons_some hb]
        exact h.cons r

end

namespace SharedCache

/-! ### No call is left behind -/

section

variable {υ : Type} [VersionResolver υ] {moves : List CacheMove}
  {s s' : SharedCache (RecordingResolver υ)} {j : Nat} {c : CacheCall}

/-- As long as a call has not returned, it or the call that it waits for can go on. -/
theorem Consistent.exists_move (h : Consistent moves s) (hj : s.calls[j]? = some c)
    (hleft : c.stage.left ≠ 0) :
    ∃ move s', s.step move = some s' ∧ s'.calls.map CacheCall.token = s.calls.map CacheCall.token ∧
      movesLeft s'.calls < movesLeft s.calls := by
  have goesOn {k : Nat} {d : CacheCall} {stage : CallStage} {s' : SharedCache (RecordingResolver υ)}
      (hk : s.calls[k]? = some d) (hcalls : s'.calls = s.calls.set k { d with stage })
      (hlt : stage.left < d.stage.left) :
      s'.calls.map CacheCall.token = s.calls.map CacheCall.token ∧
        movesLeft s'.calls < movesLeft s.calls := by
    have hset := movesLeft_set hk { d with stage }
    rw [hcalls]
    refine ⟨map_set_of_some hk rfl, ?_⟩
    simp only at hset
    omega
  obtain ⟨slot, hslot, -⟩ := h.slot hj
  cases hstage : c.stage with
  | holding =>
    cases hcell : slot.cell with
    | vacant =>
      exact ⟨.reach j, _, step_of_next (.take hj hstage hslot hcell) (by simp),
        goesOn hj rfl (by rw [hstage]; decide)⟩
    | taken =>
      exact ⟨.reach j, _, step_of_next (.join hj hstage hslot hcell) (by simp),
        goesOn hj rfl (by rw [hstage]; decide)⟩
    | filled answer =>
      exact ⟨.reach j, _, step_of_next (.find hj hstage hslot hcell) (by simp),
        goesOn hj rfl (by rw [hstage]; exact Nat.zero_lt_two)⟩
  | asking =>
    exact ⟨.ask j, _, step_of_next (.ask hj hstage hslot rfl) (by simp),
      goesOn hj rfl (by rw [hstage]; exact Nat.one_pos)⟩
  | waiting =>
    rcases (h.account hslot).of_waiting hj rfl hstage with
      ⟨k, d, hk, hsame, hasking⟩ | ⟨answer, hcell⟩
    · rw [← hsame] at hslot
      exact ⟨.ask k, _, step_of_next (.ask hk hasking hslot rfl) (by simp),
        goesOn hk rfl (by rw [hasking]; exact Nat.one_pos)⟩
    · exact ⟨.wake j, _, step_of_next (.wake hj hstage hslot hcell) (by simp),
        goesOn hj rfl (by rw [hstage]; exact Nat.one_pos)⟩
  | returned answer =>
    rw [hstage] at hleft
    exact absurd rfl hleft

/-- All calls return, if they go on. -/
theorem exists_settled (h : Consistent moves s) :
    ∃ more s', s.steps more = some s' ∧
      s'.calls.map CacheCall.token = s.calls.map CacheCall.token ∧
      ∀ c ∈ s'.calls, ∃ answer, c.stage = .returned answer := by
  -- By induction on the number of moves that are left.
  induction hn : movesLeft s.calls using Nat.strongRecOn generalizing moves s with
  | ind n ih =>
    by_cases hall : ∀ c ∈ s.calls, c.stage.left = 0
    · refine ⟨[], s, rfl, rfl, fun c hc => ?_⟩
      have hleft := hall c hc
      cases hstage : c.stage with
      | returned answer => exact ⟨answer, rfl⟩
      | _ =>
        rw [hstage] at hleft
        cases hleft
    · obtain ⟨c, hc, hleft⟩ : ∃ c ∈ s.calls, c.stage.left ≠ 0 := by
        simpa only [not_forall, exists_prop] using hall
      obtain ⟨j, hj⟩ := List.getElem?_of_mem hc
      obtain ⟨move, s₁, hstep, htokens, hlt⟩ := h.exists_move hj hleft
      obtain ⟨more, s', hmore, htokens', hsettled⟩ :=
        ih _ (hn ▸ hlt) (h.next (next_of_step hstep)) rfl
      refine ⟨move :: more, s', ?_, htokens'.trans htokens, hsettled⟩
      rw [steps, List.foldlM_cons, hstep]
      exact hmore

end

/-! ### The order in which calls return -/

/-- A cache that remembers what is in the filled cells. -/
structure Mirrors {υ : Type} [VersionResolver υ] (s : SharedCache υ) (c : CachingResolver υ) :
    Prop where
  inner : c.inner = s.inner
  known : ∀ {i : Nat} {slot}, s.slots[i]? = some slot →
    c.answerUnder? slot.key = slot.cell.answer?
  unknown : ∀ key ∉ s.slots.map Slot.key, c.answerUnder? key = none

/-- What the calls have returned so far. -/
def results {υ : Type} (s : SharedCache υ) : List (Text × Except VersionError Version) :=
  s.calls.filterMap CacheCall.result?

/-- In some order the calls that have returned got what a cache answers to one after the other. -/
def Ordered {υ : Type} [VersionResolver υ] (inner : υ) (s : SharedCache υ) : Prop :=
  ∃ (order : List (Text × Except VersionError Version)) (c : CachingResolver υ),
    order.Perm s.results ∧ CachingResolver.resolveEach (order.map Prod.fst) { inner } =
      (order.map Prod.snd, c) ∧ s.Mirrors c

section

variable {υ : Type} [VersionResolver υ] {inner : υ} {s s' : SharedCache υ}
  {c : CachingResolver υ}

theorem Ordered.initial (inner : υ) : Ordered inner { inner } := by
  refine ⟨[], { inner }, .nil, rfl, ?_⟩
  exact ⟨rfl, fun h => (by cases h), fun _ _ => rfl⟩

/-- As long as no call returns the order stays. -/
theorem Ordered.stay (h : Ordered inner s) (hresults : s'.results = s.results)
    (hmirrors : ∀ c, s.Mirrors c → s'.Mirrors c) : Ordered inner s' := by
  obtain ⟨order, c, hperm, hrun, hc⟩ := h
  exact ⟨order, c, hresults ▸ hperm, hrun, hmirrors c hc⟩

/-- A call that returns is the last in the order. -/
theorem Ordered.give {token : Text} {answer : Except VersionError Version} (h : Ordered inner s)
    (hresults : s'.results.Perm (s.results ++ [(token, answer)]))
    (hresolve : ∀ c, s.Mirrors c →
      ∃ c', c.resolve token = (answer, c') ∧ s'.Mirrors c') : Ordered inner s' := by
  obtain ⟨order, c, hperm, hrun, hc⟩ := h
  obtain ⟨c', hanswer, hc'⟩ := hresolve c hc
  refine ⟨order ++ [(token, answer)], c', ?_, ?_, hc'⟩
  · exact (hperm.append_right _).trans hresults.symm
  · rw [List.map_append, List.map_append, List.map_singleton, List.map_singleton,
      CachingResolver.resolveEach_concat, hrun, hanswer]

/-- A cell that is changed without being filled is the same to a cache. -/
theorem Mirrors.setCell (h : s.Mirrors c) {i : Nat} {slot : Slot} {cell : Cell}
    (hi : s.slots[i]? = some slot) (hcell : cell.answer? = slot.cell.answer?) :
    (s.setCell i slot cell).Mirrors c where
  inner := h.inner
  known {k slot'} hk := by
    rcases getElem?_set_cases hk with ⟨rfl, rfl⟩ | ⟨-, hk⟩
    · exact (h.known hi).trans hcell.symm
    · exact h.known hk
  unknown key hkey := by
    refine h.unknown key ?_
    rw [← map_set_of_some (f := Slot.key) (x := { slot with cell }) hi rfl]
    exact hkey

/-- Calls make no difference to a cache. -/
theorem Mirrors.setCalls (h : s.Mirrors c) (calls : List CacheCall) :
    Mirrors { s with calls } c :=
  ⟨h.inner, h.known, h.unknown⟩

/-- A slot that is made is nothing that a cache remembers. -/
theorem Mirrors.slotMade (h : s.Mirrors c) {key : Text}
    (hnew : ∀ slot ∈ s.slots, slot.key ≠ key) :
    Mirrors { s with slots := s.slots ++ [⟨key, .vacant⟩] } c where
  inner := h.inner
  known hi := by
    rcases getElem?_concat_cases hi with ⟨-, rfl⟩ | hi
    · refine h.unknown key ?_
      rw [List.mem_map]
      rintro ⟨slot, hslot, hsame⟩
      exact hnew slot hslot hsame
    · exact h.known hi
  unknown k hk := by
    refine h.unknown k fun hmem => hk ?_
    rw [List.map_append]
    exact List.mem_append_left _ hmem

end

section

variable {υ : Type} [VersionResolver υ] {moves : List CacheMove} {inner : RecordingResolver υ}
  {s s' : SharedCache (RecordingResolver υ)} {move : CacheMove}

/-- A call that asks has a new answer, which only its cell holds. -/
theorem Mirrors.ask {c : CachingResolver (RecordingResolver υ)} (h : s.Mirrors c)
    (hconsistent : Consistent moves s) {i : Nat} {slot : Slot} {token : Text}
    {answer : Except VersionError Version} {inner : RecordingResolver υ}
    (hi : s.slots[i]? = some slot) (hkey : slot.key = Text.lower token) (hcell : slot.cell = .taken)
    (hanswer : VersionResolver.resolve token s.inner = (answer, inner)) :
    ∃ c', c.resolve token = (answer, c') ∧
      Mirrors ({ s with inner }.setCell i slot (.filled answer)) c' := by
  have hnew : c.answerUnder? (Text.lower token) = none := by
    rw [← hkey, h.known hi, hcell]
    rfl
  rw [CachingResolver.resolve_of_new hnew, h.inner, hanswer]
  refine ⟨_, rfl, rfl, fun {k slot'} hk => ?_, fun key hother => ?_⟩
  · rw [CachingResolver.answerUnder?_concat hnew]
    rcases getElem?_set_cases hk with ⟨rfl, rfl⟩ | ⟨hne, hk⟩
    · rw [if_pos hkey.symm]
      rfl
    · rw [if_neg fun hsame => hne (hconsistent.eq_of_key hk hi (hsame.symm.trans hkey.symm))]
      exact h.known hk
  · have hother' : key ∉ s.slots.map Slot.key := by
      rw [← map_set_of_some (f := Slot.key) (x := { slot with cell := .filled answer }) hi rfl]
      exact hother
    rw [CachingResolver.answerUnder?_concat hnew, if_neg]
    · exact h.unknown key hother'
    · rintro rfl
      rw [← hkey] at hother'
      exact hother' (List.mem_map_of_mem (List.mem_of_getElem? hi))

/-- **Every move keeps the order.** -/
theorem Ordered.next (h : Ordered inner s) (hconsistent : Consistent moves s)
    (hnext : Next s move s') : Ordered inner s' := by
  have hadded (token : Text) (i : Nat) :
      List.filterMap CacheCall.result? (s.calls ++ [⟨token, i, .holding⟩]) = s.results := by
    rw [List.filterMap_append]
    exact List.append_nil _
  -- A call that finds a filled cell gets what the cache remembers.
  have hfound {j : Nat} {c : CacheCall} {slot : Slot} {answer : Except VersionError Version}
      (hj : s.calls[j]? = some c) (hc : c.result? = none) (hslot : s.slots[c.slot]? = some slot)
      (hcell : slot.cell = .filled answer) :
      Ordered inner (s.setStage j c (.returned answer)) := by
    obtain ⟨hkey, -⟩ := hconsistent.account_of_call hj hslot
    refine h.give (results_set_returned hj hc rfl) fun b hb => ⟨b, ?_, hb.setCalls _⟩
    refine CachingResolver.resolve_of_known ?_
    rw [← hkey, hb.known hslot, hcell]
    rfl
  have hnone {c : CacheCall} {stage : CallStage} (hstage : c.stage = stage)
      (hstage' : ∀ answer, stage ≠ .returned answer) : c.result? = none := by
    rw [CacheCall.result?, hstage]
    cases stage with
    | returned answer => exact absurd rfl (hstage' answer)
    | _ => rfl
  cases hnext with
  | found hi hkey => exact h.stay (hadded _ _) fun b hb => hb.setCalls _
  | made hnew => exact h.stay (hadded _ _) fun b hb => (hb.slotMade hnew).setCalls _
  | take hj hstage hslot hcell =>
    refine h.stay (results_set hj (hnone hstage (by simp)) rfl) fun b hb => ?_
    refine (hb.setCell hslot ?_).setCalls _
    rw [hcell]
    rfl
  | join hj hstage hslot hcell =>
    exact h.stay (results_set hj (hnone hstage (by simp)) rfl) fun b hb => hb.setCalls _
  | find hj hstage hslot hcell => exact hfound hj (hnone hstage (by simp)) hslot hcell
  | @ask j c slot answer inner' hj hstage hslot hanswer =>
    obtain ⟨hkey, haccount⟩ := hconsistent.account_of_call hj hslot
    obtain ⟨-, hcell, -⟩ := haccount.taken_of_asking hj rfl hstage
    refine h.give (results_set_returned hj (hnone hstage (by simp)) rfl) fun b hb => ?_
    obtain ⟨b', hresolve, hb'⟩ := hb.ask hconsistent hslot hkey hcell hanswer
    exact ⟨b', hresolve, hb'.setCalls _⟩
  | wake hj hstage hslot hcell => exact hfound hj (hnone hstage (by simp)) hslot hcell

end

/-- The calls of every run are in order. -/
theorem ordered_of_steps {υ : Type} [VersionResolver υ] {inner : υ} {moves : List CacheMove}
    {s : SharedCache (RecordingResolver υ)} (h : (recording inner).steps moves = some s) :
    Ordered { inner } s := by
  refine (steps_induction (P := fun moves s => Consistent moves s ∧ Ordered { inner } s)
    ⟨.initial inner, .initial _⟩ ?_ h).2
  rintro moves s₁ move s₂ ⟨hconsistent, hordered⟩ hnext
  exact ⟨hconsistent.next hnext, hordered.next hconsistent hnext⟩

/-! ### The cache over any resolver, and over the parser -/

section

variable {υ : Type} [VersionResolver υ] {inner : υ} {moves : List CacheMove}
  {s : SharedCache (RecordingResolver υ)}

/-- What holds of all answers of a resolver holds of those that were given. -/
theorem forall_asked_of_steps {P : Text → Except VersionError Version → Prop}
    (hP : ∀ token (p : υ), P token (VersionResolver.resolve token p).1)
    (h : (recording inner).steps moves = some s) : ∀ q ∈ s.inner.asked, P q.1 q.2 := by
  refine steps_induction (P := fun _ s => ∀ q ∈ s.inner.asked, P q.1 q.2) ?_ ?_ h
  · intro q hq
    cases hq
  · intro moves s₁ move s₂ ih hnext
    cases hnext with
    | @ask j c slot answer inner hj hstage hslot hanswer =>
      obtain ⟨⟨⟩, ⟨⟩⟩ := Prod.mk.inj hanswer
      intro q hq
      rcases List.mem_append.mp hq with hq | hq
      · exact ih q hq
      · obtain rfl := List.mem_singleton.mp hq
        exact hP c.token s₁.inner.inner
    | _ => exact ih

/-- **A shared cache is transparent, and it asks once.**  In whatever order calls take the lock and
reach their cells, every call that returns gets the one answer that the other resolver gave for its
token in small letters, to the spelling that reached the cell first; nothing is asked twice; all
calls return if they go on; and they have got what they would get one after the other.  Over the
parser a call gets a version if and only if its own token means it, and otherwise an error that
shows the token in some letter case. -/
theorem transparent (h : (recording inner).steps moves = some s) :
    s.calls.map CacheCall.token = tokensOf moves ∧
    (∀ c ∈ s.calls, ∀ answer, c.stage = .returned answer →
      ∃ first, (arrivals moves).find? (Text.lower · = Text.lower c.token) = some first ∧
        askedUnder (Text.lower c.token) s = [(first, answer)]) ∧
    (∀ key, askedUnder key s = [] ∨ ∃ first answer,
      (arrivals moves).find? (Text.lower · = key) = some first ∧
        askedUnder key s = [(first, answer)]) ∧
    (∃ more s', s.steps more = some s' ∧
      s'.calls.map CacheCall.token = s.calls.map CacheCall.token ∧
      ∀ c ∈ s'.calls, ∃ answer, c.stage = .returned answer) ∧
    Ordered { inner } s ∧
    ((∀ token (p : υ), (VersionResolver.resolve token p).1 = Version.ofToken token) →
      ∀ c ∈ s.calls, ∀ answer, c.stage = .returned answer →
        (∀ v, answer = .ok v ↔ Version.ofToken c.token = .ok v) ∧
          ∀ e, answer = .error e → Text.lower e.token = Text.lower c.token) := by
  have hconsistent := consistent_of_steps h
  refine ⟨hconsistent.tokens, fun c hc answer hstage => hconsistent.of_returned hc hstage,
    hconsistent.asked_cases, exists_settled hconsistent, ordered_of_steps h, ?_⟩
  intro hparser c hc answer hstage
  obtain ⟨first, -, hasked⟩ := hconsistent.of_returned hc hstage
  have hmem : (first, answer) ∈ askedUnder (Text.lower c.token) s := by
    rw [hasked]
    exact List.mem_singleton_self _
  obtain ⟨hmem, hkey⟩ := List.mem_filter.mp hmem
  have hlower : Text.lower first = Text.lower c.token := of_decide_eq_true hkey
  obtain rfl : answer = Version.ofToken first :=
    forall_asked_of_steps (P := fun token answer => answer = Version.ofToken token) hparser h _ hmem
  constructor
  · intro v
    rw [← Version.ofToken_lower, hlower, Version.ofToken_lower]
  · intro e he
    rw [Version.eq_of_ofToken_error he]
    exact hlower

/-- Two spellings of a token.  The second to take the lock is the first to reach the cell. -/
theorem transparent_twoSpellings :
    let moves : List CacheMove := [.call "HTTP/1.1".toList, .call "http/1.1".toList, .reach 1,
      .reach 0, .ask 1, .wake 0]
    ∃ s, (recording TokenParser.mk).steps moves = some s ∧
      askedUnder "http/1.1".toList s = [("http/1.1".toList, .ok ⟨1, 1⟩)] ∧
      (∀ c ∈ s.calls, c.stage = .returned (.ok ⟨1, 1⟩)) ∧
      Version.ofToken "HTTP/1.1".toList = .ok ⟨1, 1⟩ := by
  intro moves
  obtain ⟨s, h, hcalls⟩ : ∃ s, (recording TokenParser.mk).steps moves = some s ∧
      s.calls = [⟨"HTTP/1.1".toList, 0, .returned (.ok ⟨1, 1⟩)⟩,
        ⟨"http/1.1".toList, 0, .returned (.ok ⟨1, 1⟩)⟩] := ⟨_, rfl, rfl⟩
  have hfirst : (⟨"HTTP/1.1".toList, 0, .returned (.ok ⟨1, 1⟩)⟩ : CacheCall) ∈ s.calls := by
    rw [hcalls]
    exact List.mem_cons_self ..
  obtain ⟨-, hreturned, -, -, -, hparser⟩ := transparent h
  obtain ⟨first, hfind, hasked⟩ := hreturned _ hfirst _ rfl
  refine ⟨s, h, ?_, ?_, ?_⟩
  · obtain rfl : "http/1.1".toList = first := Option.some.inj hfind
    exact hasked
  · rw [hcalls]
    simp
  · -- The answer to the other spelling is the version that this one means.
    exact ((hparser (fun _ _ => rfl) _ hfirst _ rfl).1 ⟨1, 1⟩).mp rfl

end

end SharedCache

end HttpWire
