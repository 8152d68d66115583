import HttpWire.Wire.Client

/-!
# What an onlooker sees

An onlooker who follows a connection from outside sees which requests are handed to the pipeline,
which octets the client accepts, and when the client is shut.  `Timeline.sights` is what was seen so
far, octet by octet, so it does not tell in how many writes the octets were accepted.

`Adds` says of two moments of one timeline what was seen in between, for a stretch that is not
cancelled and has no horizon.  Stretches are put together by `Adds.trans`.
-/

namespace HttpWire

/-- Something that an onlooker sees. -/
inductive Sight
  | handed (r : Request)
  | accepted (octet : UInt8)
  | shut
deriving DecidableEq

namespace Sight

/-- The request that is handed to the pipeline. -/
def request? : Sight → Option Request
  | handed r => some r
  | _ => none

/-- The octet that is accepted. -/
def octet? : Sight → Option UInt8
  | accepted b => some b
  | _ => none

/-- What is seen by an event. -/
def ofEvent : Event → List Sight
  | .handed r => [handed r]
  | .wire (.wrote bytes) => bytes.map accepted
  | .wire .shut => [shut]
  | _ => []

@[simp] theorem filterMap_request?_accepted (bytes : Bytes) :
    (bytes.map accepted).filterMap request? = [] := by
  rw [List.filterMap_map]
  exact List.filterMap_eq_nil_iff.mpr fun _ _ => rfl

@[simp] theorem filterMap_octet?_accepted (bytes : Bytes) :
    (bytes.map accepted).filterMap octet? = bytes := by
  rw [List.filterMap_map]
  exact List.filterMap_some

end Sight

namespace Timeline

/-- What has been seen. -/
def sights (t : Timeline) : List Sight :=
  t.events.flatMap fun e => Sight.ofEvent e.2

/-- The requests that were handed to the pipeline. -/
def handed (t : Timeline) : List Request :=
  t.sights.filterMap Sight.request?

/-- The octets that the client has accepted. -/
def written (t : Timeline) : Bytes :=
  t.sights.filterMap Sight.octet?

/-! ### Stretches -/

/-- The timeline `t'` is `t` later on, and `seen` is what was seen in between.  Nothing cancels
either, and nothing is out of sight. -/
structure Adds (t t' : Timeline) (seen : List Sight) : Prop where
  cancelAt : t.cancelAt = none
  cancelAt' : t'.cancelAt = none
  horizon : t.horizon = none
  horizon' : t'.horizon = none
  sights : t'.sights = t.sights ++ seen

namespace Adds

variable {t t' t'' : Timeline} {seen seen' : List Sight}

theorem trans (h : Adds t t' seen) (h' : Adds t' t'' seen') : Adds t t'' (seen ++ seen') where
  cancelAt := h.cancelAt
  cancelAt' := h'.cancelAt'
  horizon := h.horizon
  horizon' := h'.horizon'
  sights := by rw [h'.sights, h.sights, List.append_assoc]

/-- A stretch behind which nothing is seen. -/
theorem trans_nil (h : Adds t t' seen) (h' : Adds t' t'' []) : Adds t t'' seen := by
  have := h.trans h'
  rwa [List.append_nil] at this

theorem isOver (h : Adds t t' seen) : t'.isOver = false := by
  rw [Timeline.isOver, h.horizon']

theorem isCancelled (h : Adds t t' seen) : t'.isCancelled = false := by
  rw [Timeline.isCancelled, h.cancelAt']

end Adds

variable {t t' : Timeline}

/-- Another moment with the same events. -/
theorem adds_of_events_eq (hc : t.cancelAt = none) (hh : t.horizon = none)
    (hc' : t'.cancelAt = none) (hh' : t'.horizon = none) (he : t'.events = t.events) :
    Adds t t' [] where
  cancelAt := hc
  cancelAt' := hc'
  horizon := hh
  horizon' := hh'
  sights := by rw [sights, he, List.append_nil, sights]

theorem adds_refl (hc : t.cancelAt = none) (hh : t.horizon = none) : Adds t t [] :=
  adds_of_events_eq hc hh hc hh rfl

theorem adds_under (hc : t.cancelAt = none) (hh : t.horizon = none) (limits : Limits) :
    Adds t (t.under limits) [] :=
  adds_of_events_eq hc hh hc hh rfl

theorem adds_pass (hc : t.cancelAt = none) (hh : t.horizon = none) (ms : Nat) :
    Adds t (t.pass ms) [] :=
  adds_of_events_eq hc hh hc hh rfl

theorem adds_record (hc : t.cancelAt = none) (hh : t.horizon = none) (e : Event) :
    Adds t (t.record e) (Sight.ofEvent e) := by
  have he : t.record e = { t with events := t.events ++ [(t.now, e)] } := by
    rw [record, if_neg]
    rw [Timeline.isOver, hh]
    exact Bool.false_ne_true
  rw [he]
  refine ⟨hc, hc, hh, hh, ?_⟩
  rw [sights, List.flatMap_append, ← sights, List.flatMap_singleton]

/-- An act that does not cancel leaves a mark or lets time pass. -/
theorem adds_perform {a : Act} (hc : t.cancelAt = none) (hh : t.horizon = none)
    (ha : a ≠ .cancel) : Adds t (t.perform a) [] := by
  cases a with
  | mark m => exact adds_record hc hh (.mark m)
  | pause ms => exact adds_pass hc hh ms
  | cancel => exact absurd rfl ha

theorem adds_foldl_perform {acts : List Act} (hc : t.cancelAt = none) (hh : t.horizon = none)
    (hacts : .cancel ∉ acts) : Adds t (acts.foldl .perform t) [] := by
  induction acts generalizing t with
  | nil => exact adds_refl hc hh
  | cons a acts ih =>
    rw [List.mem_cons, not_or] at hacts
    have h := adds_perform hc hh (Ne.symm hacts.1)
    exact h.trans (ih h.cancelAt' h.horizon' hacts.2)

@[simp] theorem now_record (t : Timeline) (e : Event) : (t.record e).now = t.now := by
  unfold record
  split <;> rfl

@[simp] theorem limits_record (t : Timeline) (e : Event) : (t.record e).limits = t.limits := by
  unfold record
  split <;> rfl

/-- Nothing cuts a sleep short if it has no deadline and is not cancelled. -/
theorem sleep_eq (hd : t.limits.deadline = none) (hc : t.cancelAt = none) (ms : Nat) :
    t.sleep ms = (.ok (), t.pass ms) := by
  rw [sleep]
  by_cases hms : ms = 0
  · rw [if_pos hms, hms]
    rfl
  · have hcancel : t.cancelAlarm = [] := by
      rw [cancelAlarm, hc]
      exact ite_self _
    have halarms : t.alarms (some (t.now + ms)) = [⟨t.now + ms, .ok ()⟩] := by
      rw [alarms, hcancel, hd]
      exact ite_self _
    rw [if_neg hms, wait, halarms]
    rfl

end Timeline

end HttpWire
