import HttpWire.Proofs.Lists
import HttpWire.Version.Shared
import Mathlib.Data.List.Nodup

/-!
# A shared cache asks once

The moves of calls come in any order.  `SharedCache.Next` says once what each of them does, and
`Consistent` what all of them keep: every call holds the slot of its token in small letters, and the
cell of a slot tells who has been there (`Account`).  As long as the cell is vacant nobody has
reached it; once it is taken the first call that did is the one that asks; and when it is filled
that call has asked, with the answer that all others get.
-/

namespace HttpWire.SharedCache

/-! ### Moves -/

section

variable {υ : Type} [VersionResolver υ] {s s' : SharedCache υ} {move : CacheMove}

/-- What a move does in a state in which it is possible. -/
inductive Next (s : SharedCache υ) : CacheMove → SharedCache υ → Prop
  /-- A call finds its slot. -/
  | found {token i slot} (hi : s.slots[i]? = some slot) (hkey : slot.key = Text.lower token) :
    Next s (.call token) { s with calls := s.calls ++ [{ token, slot := i }] }
  /-- A call makes its slot. -/
  | made {token} (hnew : ∀ slot ∈ s.slots, slot.key ≠ Text.lower token) :
    Next s (.call token) { s with
      slots := s.slots ++ [{ key := Text.lower token }]
      calls := s.calls ++ [{ token, slot := s.slots.length }] }
  /-- A call is the first to reach the cell. -/
  | take {j c slot} (hj : s.calls[j]? = some c) (hstage : c.stage = .holding)
    (hslot : s.slots[c.slot]? = some slot) (hcell : slot.cell = .vacant) :
    Next s (.reach j) ((s.setCell c.slot slot .taken).setStage j c .asking)
  /-- A call reaches the cell while another one asks. -/
  | join {j c slot} (hj : s.calls[j]? = some c) (hstage : c.stage = .holding)
    (hslot : s.slots[c.slot]? = some slot) (hcell : slot.cell = .taken) :
    Next s (.reach j) (s.setStage j c .waiting)
  /-- A call finds the answer. -/
  | find {j c slot answer} (hj : s.calls[j]? = some c) (hstage : c.stage = .holding)
    (hslot : s.slots[c.slot]? = some slot) (hcell : slot.cell = .filled answer) :
    Next s (.reach j) (s.setStage j c (.returned answer))
  /-- A call asks. -/
  | ask {j c slot answer inner} (hj : s.calls[j]? = some c) (hstage : c.stage = .asking)
    (hslot : s.slots[c.slot]? = some slot)
    (hanswer : VersionResolver.resolve c.token s.inner = (answer, inner)) :
    Next s (.ask j)
      (({ s with inner }.setCell c.slot slot (.filled answer)).setStage j c (.returned answer))
  /-- A call has waited for the answer. -/
  | wake {j c slot answer} (hj : s.calls[j]? = some c) (hstage : c.stage = .waiting)
    (hslot : s.slots[c.slot]? = some slot) (hcell : slot.cell = .filled answer) :
    Next s (.wake j) (s.setStage j c (.returned answer))

theorem next_of_call (token : Text) : Next s (.call token) (s.call token) := by
  rw [call]
  cases hfind : s.slots.findIdx? (·.key == Text.lower token) with
  | some i =>
    obtain ⟨hlt, hkey, -⟩ := List.findIdx?_eq_some_iff_getElem.mp hfind
    exact .found (List.getElem?_eq_getElem hlt) (beq_iff_eq.mp hkey)
  | none =>
    refine .made fun slot hslot => ?_
    exact beq_eq_false_iff_ne.mp (List.findIdx?_eq_none_iff.mp hfind slot hslot)

theorem next_of_reach {j : Nat} (h : s.reach j = some s') : Next s (.reach j) s' := by
  unfold reach at h
  split at h
  · cases h
  · next c hj =>
    split at h
    · next slot hstage hslot =>
      split at h
      · next hcell =>
        cases h
        exact .take hj hstage hslot hcell
      · next hcell =>
        cases h
        exact .join hj hstage hslot hcell
      · next hcell =>
        cases h
        exact .find hj hstage hslot hcell
    · cases h

theorem next_of_ask {j : Nat} (h : s.ask j = some s') : Next s (.ask j) s' := by
  unfold ask at h
  split at h
  · cases h
  · next c hj =>
    split at h
    · next slot hstage hslot =>
      cases h
      exact .ask hj hstage hslot rfl
    · cases h

theorem next_of_wake {j : Nat} (h : s.wake j = some s') : Next s (.wake j) s' := by
  unfold wake at h
  split at h
  · cases h
  · next c hj =>
    split at h
    · next slot hstage hslot =>
      split at h
      · next hcell =>
        cases h
        exact .wake hj hstage hslot hcell
      · cases h
    · cases h

/-- A move that is possible does what it is for, and nothing else. -/
theorem next_of_step (h : s.step move = some s') : Next s move s' := by
  cases move with
  | call token =>
    cases h
    exact next_of_call token
  | reach j => exact next_of_reach h
  | ask j => exact next_of_ask h
  | wake j => exact next_of_wake h

/-- What a call can do next is a possible move. -/
theorem step_of_next (h : Next s move s') (hmove : ∀ token, move ≠ .call token) :
    s.step move = some s' := by
  cases h with
  | found => exact absurd rfl (hmove _)
  | made => exact absurd rfl (hmove _)
  | take hj hstage hslot hcell =>
    rw [step, reach]
    simp only [hj, hstage, hslot, hcell]
  | join hj hstage hslot hcell =>
    rw [step, reach]
    simp only [hj, hstage, hslot, hcell]
  | find hj hstage hslot hcell =>
    rw [step, reach]
    simp only [hj, hstage, hslot, hcell]
  | ask hj hstage hslot hanswer =>
    rw [step, ask]
    simp only [hj, hstage, hslot, hanswer]
  | wake hj hstage hslot hcell =>
    rw [step, wake]
    simp only [hj, hstage, hslot, hcell]

theorem steps_concat {moves : List CacheMove} :
    s.steps (moves ++ [move]) = (s.steps moves).bind (·.step move) := by
  rw [steps, List.foldlM_append]
  simp only [List.foldlM_cons, List.foldlM_nil, bind_pure]
  rfl

/-- What holds of a state without moves, and is kept by every move, holds behind all runs. -/
theorem steps_induction {P : List CacheMove → SharedCache υ → Prop} (nil : P [] s)
    (next : ∀ {moves s₁ move s₂}, P moves s₁ → Next s₁ move s₂ → P (moves ++ [move]) s₂)
    {moves : List CacheMove} (h : s.steps moves = some s') : P moves s' := by
  induction moves using List.reverseRecOn generalizing s' with
  | nil =>
    cases h
    exact nil
  | append_singleton moves move ih =>
    rw [steps_concat, Option.bind_eq_some_iff] at h
    obtain ⟨s₁, h₁, hstep⟩ := h
    exact next (ih h₁) (next_of_step hstep)

end

/-! ### Who has come -/

end SharedCache

/-- The token of the call that takes the lock, if one does. -/
def CacheMove.token? : CacheMove → Option Text
  | .call token => some token
  | _ => none

/-- The call that reaches its cell, if one does. -/
def CacheMove.reached? : CacheMove → Option Nat
  | .reach j => some j
  | _ => none

namespace SharedCache

/-- The tokens of all calls. -/
def tokensOf (moves : List CacheMove) : List Text :=
  moves.filterMap CacheMove.token?

/-- The calls that have reached their cells, in that order. -/
def reachedOf (moves : List CacheMove) : List Nat :=
  moves.filterMap CacheMove.reached?

/-- The tokens of the calls that have reached their cells, in that order. -/
def arrivals (moves : List CacheMove) : List Text :=
  (reachedOf moves).filterMap ((tokensOf moves)[·]?)

/-- The arrivals with a token that is this one in small letters. -/
def arrivedUnder (key : Text) (moves : List CacheMove) : List Text :=
  (arrivals moves).filter (Text.lower · = key)

/-- The questions with a token that is this one in small letters, and the answers. -/
def askedUnder {υ : Type} (key : Text) (s : SharedCache (RecordingResolver υ)) :
    List (Text × Except VersionError Version) :=
  s.inner.asked.filter (Text.lower ·.1 = key)

section

variable {moves : List CacheMove}

theorem tokensOf_concat (moves : List CacheMove) (move : CacheMove) :
    tokensOf (moves ++ [move]) = tokensOf moves ++ move.token?.toList := by
  rw [tokensOf, List.filterMap_append]
  cases move <;> rfl

theorem reachedOf_concat (moves : List CacheMove) (move : CacheMove) :
    reachedOf (moves ++ [move]) = reachedOf moves ++ move.reached?.toList := by
  rw [reachedOf, List.filterMap_append]
  cases move <;> rfl

/-- A call that reaches its cell is one more arrival, and nothing else is. -/
theorem arrivals_concat (h : ∀ j ∈ reachedOf moves, j < (tokensOf moves).length)
    (move : CacheMove) :
    arrivals (moves ++ [move]) =
      arrivals moves ++ (move.reached?.bind ((tokensOf moves)[·]?)).toList := by
  have hold : (reachedOf moves).filterMap ((tokensOf moves ++ move.token?.toList)[·]?) =
      arrivals moves :=
    List.filterMap_congr fun j hj => List.getElem?_append_left (h j hj)
  rw [arrivals, tokensOf_concat, reachedOf_concat, List.filterMap_append, hold]
  cases move with
  | reach j =>
    show _ ++ List.filterMap _ [j] = _ ++ ((tokensOf moves)[j]?).toList
    cases hj : (tokensOf moves)[j]? <;> simp [CacheMove.token?, hj]
  | _ => rfl

theorem arrivedUnder_concat (h : ∀ j ∈ reachedOf moves, j < (tokensOf moves).length)
    (move : CacheMove) (key : Text) :
    arrivedUnder key (moves ++ [move]) = arrivedUnder key moves ++
      (move.reached?.bind ((tokensOf moves)[·]?)).toList.filter (Text.lower · = key) := by
  rw [arrivedUnder, arrivals_concat h, List.filter_append]
  rfl

/-- What reaches no cell is no arrival. -/
theorem arrivedUnder_of_not_reached (h : ∀ j ∈ reachedOf moves, j < (tokensOf moves).length)
    (move : CacheMove) (hmove : move.reached? = none) (key : Text) :
    arrivedUnder key (moves ++ [move]) = arrivedUnder key moves := by
  rw [arrivedUnder_concat h, hmove]
  exact List.append_nil _

end

/-! ### Accounts -/

/-- What the cell of a slot tells of the calls that hold the slot: who of them has asked and what
the answer was, who has arrived, and where they stand. -/
inductive Account (calls : List CacheCall) (i : Nat) :
    Cell → List (Text × Except VersionError Version) → List Text → Prop
  /-- Nobody has arrived. -/
  | vacant (hcalls : ∀ {k : Nat} {c : CacheCall}, calls[k]? = some c → c.slot = i →
      c.stage = .holding) : Account calls i .vacant [] []
  /-- The first that has arrived asks, and others wait. -/
  | taken {k : Nat} {first later} (hfirst : calls[k]? = some ⟨first, i, .asking⟩)
    (hcalls : ∀ {l : Nat} {c : CacheCall}, calls[l]? = some c → c.slot = i →
      l ≠ k → c.stage = .holding ∨ c.stage = .waiting) :
    Account calls i .taken [] (first :: later)
  /-- The first that has arrived has asked, and nobody asks again. -/
  | filled {first later answer} (hcalls : ∀ {k : Nat} {c : CacheCall}, calls[k]? = some c →
      c.slot = i → c.stage = .holding ∨ c.stage = .waiting ∨ c.stage = .returned answer) :
    Account calls i (.filled answer) [(first, answer)] (first :: later)

namespace Account

variable {calls : List CacheCall} {i j : Nat} {c d : CacheCall} {cell : Cell}
  {asked : List (Text × Except VersionError Version)} {arrived : List Text}
  {answer : Except VersionError Version}

/-- A new call changes no account. -/
theorem concat (h : Account calls i cell asked arrived) (hd : d.stage = .holding) :
    Account (calls ++ [d]) i cell asked arrived := by
  have hold {k : Nat} {c : CacheCall} (hc : (calls ++ [d])[k]? = some c) :
      c.stage = .holding ∨ calls[k]? = some c := by
    rcases getElem?_concat_cases hc with ⟨-, rfl⟩ | hc
    · exact .inl hd
    · exact .inr hc
  cases h with
  | vacant hcalls => exact .vacant fun hc hslot => (hold hc).elim id fun hc => hcalls hc hslot
  | taken hfirst hcalls =>
    refine .taken (getElem?_append_of_some hfirst _) fun hc hslot hne => ?_
    exact (hold hc).elim .inl fun hc => hcalls hc hslot hne
  | filled hcalls => exact .filled fun hc hslot => (hold hc).elim .inl fun hc => hcalls hc hslot

/-- A call that holds another slot changes no account. -/
theorem set_other (h : Account calls i cell asked arrived) (hj : calls[j]? = some c)
    (hne : c.slot ≠ i) (stage : CallStage) :
    Account (calls.set j { c with stage }) i cell asked arrived := by
  have hold {k : Nat} {d : CacheCall} (hd : (calls.set j { c with stage })[k]? = some d)
      (hslot : d.slot = i) : calls[k]? = some d := by
    rcases getElem?_set_cases hd with ⟨-, rfl⟩ | ⟨-, hd⟩
    · exact absurd hslot hne
    · exact hd
  cases h with
  | vacant hcalls => exact .vacant fun hd hslot => hcalls (hold hd hslot) hslot
  | @taken k first later hfirst hcalls =>
    have hkj : j ≠ k := by
      rintro rfl
      obtain rfl := Option.some.inj (hj.symm.trans hfirst)
      exact hne rfl
    refine .taken ((List.getElem?_set_ne hkj).trans hfirst) fun hd hslot => ?_
    exact hcalls (hold hd hslot) hslot
  | filled hcalls => exact .filled fun hd hslot => hcalls (hold hd hslot) hslot

/-- The first call that arrives is the one that asks. -/
theorem take (h : Account calls i .vacant asked arrived) (hj : calls[j]? = some c)
    (hslot : c.slot = i) :
    Account (calls.set j { c with stage := .asking }) i .taken asked (arrived ++ [c.token]) := by
  subst hslot
  cases h with
  | vacant hcalls =>
    refine .taken (getElem?_set_of_some hj _) fun hd hslot hne => ?_
    rcases getElem?_set_cases hd with ⟨heq, -⟩ | ⟨-, hd⟩
    · exact absurd heq hne
    · exact .inl (hcalls hd hslot)

/-- A call that arrives later waits. -/
theorem join (h : Account calls i .taken asked arrived) (hj : calls[j]? = some c)
    (hstage : c.stage = .holding) (token : Text) :
    Account (calls.set j { c with stage := .waiting }) i .taken asked (arrived ++ [token]) := by
  cases h with
  | @taken k first later hfirst hcalls =>
    have hkj : j ≠ k := by
      rintro rfl
      obtain rfl := Option.some.inj (hj.symm.trans hfirst)
      cases hstage
    refine .taken ((List.getElem?_set_ne hkj).trans hfirst) fun hd hslot hne => ?_
    rcases getElem?_set_cases hd with ⟨-, rfl⟩ | ⟨-, hd⟩
    · exact .inr rfl
    · exact hcalls hd hslot hne

/-- More calls arrive, and the account of a filled cell stays. -/
theorem arrive (h : Account calls i (.filled answer) asked arrived) (token : Text) :
    Account calls i (.filled answer) asked (arrived ++ [token]) := by
  cases h with
  | filled hcalls => exact .filled hcalls

/-- A call returns with what is in the cell. -/
theorem give (h : Account calls i (.filled answer) asked arrived) :
    Account (calls.set j { c with stage := .returned answer }) i (.filled answer) asked
      arrived := by
  cases h with
  | filled hcalls =>
    refine .filled fun hd hslot => ?_
    rcases getElem?_set_cases hd with ⟨-, rfl⟩ | ⟨-, hd⟩
    · exact .inr (.inr rfl)
    · exact hcalls hd hslot

/-- The call that asks is the first that has arrived. -/
theorem taken_of_asking (h : Account calls i cell asked arrived) (hj : calls[j]? = some c)
    (hslot : c.slot = i) (hstage : c.stage = .asking) :
    ∃ later, cell = .taken ∧ asked = [] ∧ arrived = c.token :: later ∧
      ∀ {l : Nat} {d : CacheCall}, calls[l]? = some d → d.slot = i → l ≠ j →
        d.stage = .holding ∨ d.stage = .waiting := by
  cases h with
  | vacant hcalls =>
    rw [hcalls hj hslot] at hstage
    cases hstage
  | @taken k first later hfirst hcalls =>
    by_cases hkj : j = k
    · subst hkj
      obtain rfl := Option.some.inj (hj.symm.trans hfirst)
      exact ⟨later, rfl, rfl, rfl, hcalls⟩
    · have hstages := hcalls hj hslot hkj
      rw [hstage] at hstages
      rcases hstages with hstages | hstages <;> cases hstages
  | filled hcalls =>
    have hstages := hcalls hj hslot
    rw [hstage] at hstages
    rcases hstages with hstages | hstages | hstages <;> cases hstages

/-- The call that asks fills the cell. -/
theorem ask (h : Account calls i cell asked arrived) (hj : calls[j]? = some c) (hslot : c.slot = i)
    (hstage : c.stage = .asking) (answer : Except VersionError Version) :
    Account (calls.set j { c with stage := .returned answer }) i (.filled answer)
      (asked ++ [(c.token, answer)]) arrived := by
  obtain ⟨later, -, rfl, rfl, hcalls⟩ := h.taken_of_asking hj hslot hstage
  refine .filled fun hd hslot' => ?_
  rcases getElem?_set_cases hd with ⟨-, rfl⟩ | ⟨hne, hd⟩
  · exact .inr (.inr rfl)
  · exact (hcalls hd hslot' hne).imp_right .inl

/-- Nothing is asked, or only the first that has arrived. -/
theorem asked_cases (h : Account calls i cell asked arrived) :
    asked = [] ∨ ∃ first later answer, asked = [(first, answer)] ∧ arrived = first :: later := by
  cases h with
  | vacant => exact .inl rfl
  | taken => exact .inl rfl
  | filled => exact .inr ⟨_, _, _, rfl, rfl⟩

/-- A call that waits waits for one that asks, or it can find the answer. -/
theorem of_waiting (h : Account calls i cell asked arrived) (hj : calls[j]? = some c)
    (hslot : c.slot = i) (hstage : c.stage = .waiting) :
    (∃ (k : Nat) (d : CacheCall), calls[k]? = some d ∧ d.slot = i ∧ d.stage = .asking) ∨
      ∃ answer, cell = .filled answer := by
  cases h with
  | vacant hcalls =>
    rw [hcalls hj hslot] at hstage
    cases hstage
  | taken hfirst hcalls => exact .inl ⟨_, _, hfirst, rfl, rfl⟩
  | filled hcalls => exact .inr ⟨_, rfl⟩

/-- A call has returned with the answer to the first call that has arrived. -/
theorem of_returned (h : Account calls i cell asked arrived) (hj : calls[j]? = some c)
    (hslot : c.slot = i) (hstage : c.stage = .returned answer) :
    ∃ first later, cell = .filled answer ∧ asked = [(first, answer)] ∧
      arrived = first :: later := by
  cases h with
  | vacant hcalls =>
    rw [hcalls hj hslot] at hstage
    cases hstage
  | @taken k first later hfirst hcalls =>
    by_cases hkj : j = k
    · subst hkj
      obtain rfl := Option.some.inj (hj.symm.trans hfirst)
      cases hstage
    · have hstages := hcalls hj hslot hkj
      rw [hstage] at hstages
      rcases hstages with hstages | hstages <;> cases hstages
  | @filled first later answer' hcalls =>
    have hstages := hcalls hj hslot
    rw [hstage] at hstages
    rcases hstages with hstages | hstages | hstages
    · cases hstages
    · cases hstages
    · cases hstages
      exact ⟨first, later, rfl, rfl, rfl⟩

end Account

/-! ### Consistency -/

/-- An empty cache over a resolver whose questions and answers are remembered. -/
def recording {υ : Type} (inner : υ) : SharedCache (RecordingResolver υ) :=
  { inner := { inner } }

/-- What is true of a cache behind the moves so far. -/
structure Consistent {υ : Type} (moves : List CacheMove) (s : SharedCache (RecordingResolver υ)) :
    Prop where
  keys : (s.slots.map Slot.key).Nodup
  slot : ∀ {j : Nat} {c}, s.calls[j]? = some c →
    ∃ slot, s.slots[c.slot]? = some slot ∧ slot.key = Text.lower c.token
  tokens : s.calls.map CacheCall.token = tokensOf moves
  reached : ∀ j ∈ reachedOf moves, j < s.calls.length
  account : ∀ {i : Nat} {slot}, s.slots[i]? = some slot →
    Account s.calls i slot.cell (askedUnder slot.key s) (arrivedUnder slot.key moves)
  /-- Without a slot nobody has asked or arrived. -/
  unseen : ∀ key ∉ s.slots.map Slot.key, askedUnder key s = [] ∧ arrivedUnder key moves = []

namespace Consistent

variable {υ : Type} {moves : List CacheMove} {s s' : SharedCache (RecordingResolver υ)}
  {move : CacheMove} {j : Nat} {c : CacheCall} {slot : Slot}

theorem initial (inner : υ) : Consistent [] (recording inner) where
  keys := List.nodup_nil
  slot h := by cases h
  tokens := rfl
  reached _ h := by cases h
  account h := by cases h
  unseen _ _ := ⟨rfl, rfl⟩

/-- Two slots with the same key are the same. -/
theorem eq_of_key (h : Consistent moves s) {i k : Nat} {slot slot' : Slot}
    (hi : s.slots[i]? = some slot) (hk : s.slots[k]? = some slot') (hkey : slot.key = slot'.key) :
    i = k := by
  obtain ⟨hlt, -⟩ := List.getElem?_eq_some_iff.mp hi
  have hsame : (s.slots.map Slot.key)[i]? = (s.slots.map Slot.key)[k]? := by
    rw [List.getElem?_map, List.getElem?_map, hi, hk, Option.map_some, Option.map_some, hkey]
  exact (List.getElem?_inj (by rwa [List.length_map]) h.keys).mp hsame

/-- The account of the slot of a call. -/
theorem account_of_call (h : Consistent moves s) (hj : s.calls[j]? = some c)
    (hslot : s.slots[c.slot]? = some slot) :
    slot.key = Text.lower c.token ∧
      Account s.calls c.slot slot.cell (askedUnder slot.key s) (arrivedUnder slot.key moves) := by
  obtain ⟨slot', hslot', hkey⟩ := h.slot hj
  obtain rfl := Option.some.inj (hslot.symm.trans hslot')
  exact ⟨hkey, h.account hslot⟩

theorem reached_lt (h : Consistent moves s) :
    ∀ j ∈ reachedOf moves, j < (tokensOf moves).length := by
  rw [← h.tokens, List.length_map]
  exact h.reached

theorem token (h : Consistent moves s) (hj : s.calls[j]? = some c) :
    (tokensOf moves)[j]? = some c.token := by
  rw [← h.tokens, List.getElem?_map, hj, Option.map_some]

/-- A new call holds its slot. -/
theorem found (h : Consistent moves s) {token : Text} {i : Nat} (hi : s.slots[i]? = some slot)
    (hkey : slot.key = Text.lower token) :
    Consistent (moves ++ [.call token]) { s with calls := s.calls ++ [{ token, slot := i }] } := by
  have harrivals := arrivedUnder_of_not_reached h.reached_lt (.call token) rfl
  exact
    { keys := h.keys
      slot := fun hc => by
        rcases getElem?_concat_cases hc with ⟨-, rfl⟩ | hc
        · exact ⟨slot, hi, hkey⟩
        · exact h.slot hc
      tokens := by
        rw [List.map_append, h.tokens, tokensOf_concat]
        rfl
      reached := fun j hj => by
        rw [reachedOf_concat] at hj
        have hlt := h.reached j (by simpa [CacheMove.reached?] using hj)
        rw [List.length_append]
        omega
      account := fun hslot => by
        rw [harrivals]
        exact (h.account hslot).concat rfl
      unseen := fun key hkey => by
        rw [harrivals]
        exact h.unseen key hkey }

/-- A slot that is made has a vacant cell. -/
theorem slotMade (h : Consistent moves s) {key : Text} (hnew : ∀ slot ∈ s.slots, slot.key ≠ key) :
    Consistent moves { s with slots := s.slots ++ [⟨key, .vacant⟩] } := by
  have hkey : key ∉ s.slots.map Slot.key := by
    rw [List.mem_map]
    rintro ⟨slot, hslot, hsame⟩
    exact hnew slot hslot hsame
  exact
    { h with
      keys := by
        rw [List.map_append, List.nodup_append]
        refine ⟨h.keys, List.nodup_singleton _, fun k hk last hlast => ?_⟩
        rw [List.mem_singleton.mp hlast]
        rintro rfl
        exact hkey hk
      slot := fun hc => by
        obtain ⟨slot, hi, hsame⟩ := h.slot hc
        exact ⟨slot, getElem?_append_of_some hi _, hsame⟩
      account := fun {i slot} hslot => by
        rcases getElem?_concat_cases hslot with ⟨rfl, rfl⟩ | hslot
        · obtain ⟨hasked, harrived⟩ := h.unseen key hkey
          show Account s.calls _ .vacant (askedUnder key s) (arrivedUnder key moves)
          rw [hasked, harrived]
          refine .vacant fun hc hslot => ?_
          -- No call holds a slot that there was not.
          obtain ⟨slot, hi, -⟩ := h.slot hc
          obtain ⟨hlt, -⟩ := List.getElem?_eq_some_iff.mp hi
          omega
        · exact h.account hslot
      unseen := fun k hk => by
        refine h.unseen k fun hmem => hk ?_
        rw [List.map_append]
        exact List.mem_append_left _ hmem }

/-- A call goes on to another stage, and what it does to its slot is accounted for. -/
theorem setStage (h : Consistent moves s) (hj : s.calls[j]? = some c)
    (hslot : s.slots[c.slot]? = some slot) (stage : CallStage) (cell : Cell)
    (hslots : s'.slots = s.slots.set c.slot { slot with cell })
    (hcalls : s'.calls = s.calls.set j { c with stage })
    (htoken : move.token? = none) (hreached : ∀ k ∈ move.reached?, k < s.calls.length)
    (hothers : ∀ key ≠ slot.key, askedUnder key s' = askedUnder key s ∧
      arrivedUnder key (moves ++ [move]) = arrivedUnder key moves)
    (haccount : Account s'.calls c.slot cell (askedUnder slot.key s')
      (arrivedUnder slot.key (moves ++ [move]))) : Consistent (moves ++ [move]) s' := by
  have hkeys : s'.slots.map Slot.key = s.slots.map Slot.key := by
    rw [hslots]
    exact map_set_of_some hslot rfl
  exact
    { keys := by
        rw [hkeys]
        exact h.keys
      slot := fun {k d} hd => by
        have hd' : ∃ d', s.calls[k]? = some d' ∧ d.slot = d'.slot ∧ d.token = d'.token := by
          rw [hcalls] at hd
          rcases getElem?_set_cases hd with ⟨rfl, rfl⟩ | ⟨-, hd⟩
          · exact ⟨c, hj, rfl, rfl⟩
          · exact ⟨d, hd, rfl, rfl⟩
        obtain ⟨d', hd', hsame, htoken⟩ := hd'
        obtain ⟨slot', hi, hkey⟩ := h.slot hd'
        rw [hslots, hsame, htoken]
        by_cases heq : c.slot = d'.slot
        · rw [← heq] at hi ⊢
          obtain rfl := Option.some.inj (hslot.symm.trans hi)
          exact ⟨_, getElem?_set_of_some hslot _, hkey⟩
        · exact ⟨slot', (List.getElem?_set_ne heq).trans hi, hkey⟩
      tokens := by
        rw [hcalls, tokensOf_concat, htoken, ← h.tokens, Option.toList_none, List.append_nil]
        exact map_set_of_some hj rfl
      reached := fun k hk => by
        rw [hcalls, List.length_set]
        rw [reachedOf_concat] at hk
        rcases List.mem_append.mp hk with hk | hk
        · exact h.reached k hk
        · exact hreached k (Option.mem_toList.mp hk)
      account := fun {i slot'} hi => by
        rw [hslots] at hi
        rcases getElem?_set_cases hi with ⟨rfl, rfl⟩ | ⟨hne, hi⟩
        · exact haccount
        · -- Other slots have other keys.
          have hkey : slot'.key ≠ slot.key := fun hkey => hne (h.eq_of_key hi hslot hkey)
          rw [(hothers _ hkey).1, (hothers _ hkey).2, hcalls]
          exact (h.account hi).set_other hj (Ne.symm hne) stage
      unseen := fun key hkey => by
        rw [hkeys] at hkey
        have hne : key ≠ slot.key := by
          rintro rfl
          exact hkey (List.mem_map_of_mem (List.mem_of_getElem? hslot))
        rw [(hothers key hne).1, (hothers key hne).2]
        exact h.unseen key hkey }

/-- **Every move keeps the cache consistent.** -/
theorem next [VersionResolver υ] (h : Consistent moves s) (hnext : Next s move s') :
    Consistent (moves ++ [move]) s' := by
  -- A call that reaches its cell is one more arrival for its key, and none for others.
  have hreached {j : Nat} {c : CacheCall} (hj : s.calls[j]? = some c) :
      ∀ k ∈ CacheMove.reached? (.reach j), k < s.calls.length := by
    rintro k ⟨⟩
    exact (List.getElem?_eq_some_iff.mp hj).1
  have harrived {j : Nat} {c : CacheCall} {slot : Slot} (hj : s.calls[j]? = some c)
      (hkey : slot.key = Text.lower c.token) :
      arrivedUnder slot.key (moves ++ [.reach j]) = arrivedUnder slot.key moves ++ [c.token] ∧
        ∀ key ≠ slot.key, arrivedUnder key (moves ++ [.reach j]) = arrivedUnder key moves := by
    have htoken : (CacheMove.reached? (.reach j)).bind ((tokensOf moves)[·]?) = some c.token :=
      h.token hj
    rw [arrivedUnder_concat h.reached_lt, htoken]
    refine ⟨by simp [hkey], fun key hne => ?_⟩
    rw [arrivedUnder_concat h.reached_lt, htoken]
    simp [Ne.symm (hkey ▸ hne)]
  have hsame {j : Nat} {slot : Slot} (hslot : s.slots[j]? = some slot) {cell : Cell}
      (hcell : slot.cell = cell) : s.slots = s.slots.set j { slot with cell } := by
    obtain ⟨hlt, rfl⟩ := List.getElem?_eq_some_iff.mp hslot
    rw [← hcell]
    exact (List.set_getElem_self hlt).symm
  cases hnext with
  | found hi hkey => exact h.found hi hkey
  | @made token hnew =>
    have hslot : (s.slots ++ [⟨Text.lower token, .vacant⟩])[s.slots.length]? =
        some ⟨Text.lower token, .vacant⟩ := by simp
    exact (h.slotMade hnew).found hslot rfl
  | @take j c slot hj hstage hslot hcell =>
    obtain ⟨hkey, haccount⟩ := h.account_of_call hj hslot
    obtain ⟨hown, hothers⟩ := harrived hj hkey
    refine h.setStage hj hslot .asking .taken rfl rfl rfl (hreached hj)
      (fun key hne => ⟨rfl, hothers key hne⟩) ?_
    rw [hcell] at haccount
    rw [hown]
    exact haccount.take hj rfl
  | @join j c slot hj hstage hslot hcell =>
    obtain ⟨hkey, haccount⟩ := h.account_of_call hj hslot
    obtain ⟨hown, hothers⟩ := harrived hj hkey
    refine h.setStage hj hslot .waiting .taken (hsame hslot hcell) rfl rfl (hreached hj)
      (fun key hne => ⟨rfl, hothers key hne⟩) ?_
    rw [hcell] at haccount
    rw [hown]
    exact haccount.join hj hstage c.token
  | @find j c slot answer hj hstage hslot hcell =>
    obtain ⟨hkey, haccount⟩ := h.account_of_call hj hslot
    obtain ⟨hown, hothers⟩ := harrived hj hkey
    refine h.setStage hj hslot (.returned answer) (.filled answer) (hsame hslot hcell) rfl rfl
      (hreached hj) (fun key hne => ⟨rfl, hothers key hne⟩) ?_
    rw [hcell] at haccount
    rw [hown]
    exact (haccount.arrive c.token).give
  | @ask j c slot answer inner hj hstage hslot hanswer =>
    obtain ⟨hkey, haccount⟩ := h.account_of_call hj hslot
    have hasked (key : Text) : inner.asked.filter (Text.lower ·.1 = key) =
        askedUnder key s ++ if Text.lower c.token = key then [(c.token, answer)] else [] := by
      obtain ⟨⟨⟩, ⟨⟩⟩ := Prod.mk.inj hanswer
      rw [List.filter_append, List.filter_cons, List.filter_nil]
      simp only [decide_eq_true_eq]
      rfl
    have harrivals := arrivedUnder_of_not_reached h.reached_lt (.ask j) rfl
    refine h.setStage hj hslot (.returned answer) (.filled answer) rfl rfl rfl (by rintro k ⟨⟩)
      (fun key hne => ⟨(hasked key).trans ?_, harrivals key⟩) ?_
    · rw [if_neg fun hsame => hne (hsame.symm.trans hkey.symm), List.append_nil]
    · show Account _ _ _ (inner.asked.filter (Text.lower ·.1 = slot.key)) _
      rw [harrivals, hasked, if_pos hkey.symm]
      exact haccount.ask hj rfl hstage answer
  | @wake j c slot answer hj hstage hslot hcell =>
    obtain ⟨hkey, haccount⟩ := h.account_of_call hj hslot
    have harrivals := arrivedUnder_of_not_reached h.reached_lt (.wake j) rfl
    refine h.setStage hj hslot (.returned answer) (.filled answer) (hsame hslot hcell) rfl rfl
      (by rintro k ⟨⟩) (fun key _ => ⟨rfl, harrivals key⟩) ?_
    rw [hcell] at haccount
    rw [harrivals]
    exact haccount.give

/-- A call that has returned got the answer to the first spelling that arrived. -/
theorem of_returned (h : Consistent moves s) {answer : Except VersionError Version}
    (hc : c ∈ s.calls) (hstage : c.stage = .returned answer) :
    ∃ first, (arrivals moves).find? (Text.lower · = Text.lower c.token) = some first ∧
      askedUnder (Text.lower c.token) s = [(first, answer)] := by
  obtain ⟨j, hj⟩ := List.getElem?_of_mem hc
  obtain ⟨slot, hslot, hkey⟩ := h.slot hj
  obtain ⟨first, later, -, hasked, harrived⟩ := (h.account hslot).of_returned hj rfl hstage
  rw [← hkey]
  refine ⟨first, ?_, hasked⟩
  rw [← List.head?_filter, ← arrivedUnder, harrived]
  rfl

/-- What is asked is asked once, in the first spelling that arrived. -/
theorem asked_cases (h : Consistent moves s) (key : Text) :
    askedUnder key s = [] ∨ ∃ first answer,
      (arrivals moves).find? (Text.lower · = key) = some first ∧
        askedUnder key s = [(first, answer)] := by
  by_cases hkey : key ∈ s.slots.map Slot.key
  · obtain ⟨slot, hmem, rfl⟩ := List.mem_map.mp hkey
    obtain ⟨i, hi⟩ := List.getElem?_of_mem hmem
    rcases (h.account hi).asked_cases with hasked | ⟨first, later, answer, hasked, harrived⟩
    · exact .inl hasked
    · refine .inr ⟨first, answer, ?_, hasked⟩
      rw [← List.head?_filter, ← arrivedUnder, harrived]
      rfl
  · exact .inl (h.unseen key hkey).1

end Consistent

/-- A cache is consistent behind every run of moves. -/
theorem consistent_of_steps {υ : Type} [VersionResolver υ] {inner : υ} {moves : List CacheMove}
    {s : SharedCache (RecordingResolver υ)}
    (h : (recording inner).steps moves = some s) : Consistent moves s :=
  steps_induction (.initial inner) .next h

end HttpWire.SharedCache
