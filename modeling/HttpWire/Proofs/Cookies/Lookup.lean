import Mathlib.Data.List.Induction
import HttpWire.Proofs.Cookies.Received

/-!
# What a look-up in a cookie jar finds

A look-up takes the last cookie of a name and a change goes to the first one.  So everything a
look-up can find is in `values`, the values of a name in the order of the jar, and a change
replaces the head of that list or starts it (`values_set_self`), while the lists of all other
names stay as they are (`values_set_of_ne`).  Over a run of steps only the last change of a name
remains (`values_after`).

For a name that a client sent at most once, head and last of its list are one, and a look-up
finds the last change or, without one, what the client sent.  For a name that was sent twice or
more the last value is never reached by a change: a look-up keeps finding what was received
(`get?_after_ofHeaders`).
-/

namespace HttpWire

variable {name other value : Text} {jar : CookieJar}

/-! ### Changes among the steps -/

/-- The name and the value that a step gives to it, if it is a change. -/
def CookieStep.change? : CookieStep → Option (Text × Text)
  | .get _ => none
  | .set name value => some (name, value)
  | .remove name => some (name, [])

/-- The value that a step gives to a name. -/
def CookieStep.valueFor? (name : Text) (step : CookieStep) : Option Text :=
  step.change?.bind fun (changed, value) => if changed = name then some value else none

/-- The value that the last change of a name among some steps gives to it. -/
def lastChange? (name : Text) (steps : List CookieStep) : Option Text :=
  (steps.filterMap (CookieStep.valueFor? name)).getLast?

theorem lastChange?_concat (steps : List CookieStep) (step : CookieStep) :
    lastChange? name (steps ++ [step]) = (step.valueFor? name).or (lastChange? name steps) := by
  rw [lastChange?, List.filterMap_append, List.getLast?_append]
  cases h : step.valueFor? name <;> simp [h, lastChange?]

namespace CookieJar

/-! ### The values of a name -/

/-- The values of the cookies of a name, in the order of the jar. -/
def values (name : Text) (jar : CookieJar) : List Text :=
  (jar.cookies.filter (·.name = name)).map (·.value)

/-- A look-up finds the last value of a name. -/
theorem get?_eq_getLast? (jar : CookieJar) (name : Text) :
    jar.get? name = (jar.values name).getLast? := by
  rw [get?, values, List.getLast?_map, ← List.head?_reverse, ← List.filter_reverse,
    List.head?_filter]
  simp only [beq_eq_decide]

/-- A change replaces the first value of its name. -/
@[simp] theorem values_set_self (jar : CookieJar) (name value : Text) :
    (jar.set name value).values name = value :: (jar.values name).tail := by
  obtain ⟨cookies⟩ := jar
  simp only [set, values]
  induction cookies with
  | nil => simp [setIn]
  | cons c rest ih =>
    by_cases hc : c.name = name
    · simp [setIn, hc]
    · simpa [setIn, hc] using ih

/-- A change leaves the values of all other names as they are. -/
theorem values_set_of_ne (hne : name ≠ other) (value : Text) :
    (jar.set name value).values other = jar.values other := by
  obtain ⟨cookies⟩ := jar
  simp only [set, values]
  induction cookies with
  | nil => simp [setIn, hne]
  | cons c rest ih =>
    by_cases hc : c.name = name
    · simp [setIn, hc, hne]
    · by_cases ho : c.name = other
      · simpa [setIn, ho, hne.symm] using ih
      · simpa [setIn, hc, ho] using ih

/-- What a step makes of the values of a name. -/
theorem values_step (jar : CookieJar) (step : CookieStep) (name : Text) :
    (jar.step step).2.values name =
      (step.valueFor? name).elim (jar.values name) (· :: (jar.values name).tail) := by
  have set_eq (changed value : Text) : (jar.set changed value).values name =
      (if changed = name then some value else none).elim (jar.values name)
        (· :: (jar.values name).tail) := by
    by_cases h : changed = name
    · simp [h]
    · simp [h, values_set_of_ne h]
  cases step with
  | get looked => rfl
  | set changed value => exact set_eq changed value
  | remove changed => exact set_eq changed []

/-! ### Runs of steps -/

/-- The jar behind some steps. -/
def after (jar : CookieJar) (steps : List CookieStep) : CookieJar :=
  steps.foldl (fun jar step => (jar.step step).2) jar

theorem after_concat (jar : CookieJar) (steps : List CookieStep) (step : CookieStep) :
    jar.after (steps ++ [step]) = ((jar.after steps).step step).2 := by
  simp [after]

/-- Behind a run of steps the last change of a name stands in the place of its first value. -/
theorem values_after (jar : CookieJar) (steps : List CookieStep) (name : Text) :
    (jar.after steps).values name =
      (lastChange? name steps).elim (jar.values name) (· :: (jar.values name).tail) := by
  induction steps using List.reverseRecOn with
  | nil => rfl
  | append_singleton steps step ih =>
    rw [after_concat, values_step, ih, lastChange?_concat]
    cases step.valueFor? name with
    | none => simp
    | some value => cases lastChange? name steps <;> simp

/-- What a look-up finds behind a run of steps on a jar with several cookies of a name, one of
them or none. -/
theorem get?_after (jar : CookieJar) (steps : List CookieStep) (name : Text) :
    (jar.after steps).get? name =
      if 2 ≤ (jar.values name).length then (jar.values name).getLast?
      else (lastChange? name steps).or (jar.values name).getLast? := by
  rw [get?_eq_getLast?, values_after]
  match jar.values name, lastChange? name steps with
  | [], none => rfl
  | [], some _ => rfl
  | [_], none => rfl
  | [_], some _ => rfl
  | _ :: _ :: _, none => simp
  | _ :: _ :: _, some _ => simp

/-- The values of a name among some pairs, in their order. -/
def valuesOf (name : Text) (pairs : List (Text × Text)) : List Text :=
  (pairs.filter (·.1 = name)).map Prod.snd

theorem values_eq_valuesOf (name : Text) (jar : CookieJar) :
    jar.values name = valuesOf name (jar.cookies.map Cookie.pair) := by
  rw [valuesOf, List.filter_map, List.map_map]
  rfl

/-- Behind any steps on the cookies that a client sent, a look-up finds the last received value of a
name that was received twice or more, whatever has been changed; for any other name it finds
the last change or else the value that was received.  So it finds the last change of a name
exactly if the name was not received twice, was not changed, or was given the last received
value anew. -/
theorem get?_after_ofHeaders (h : Headers) (steps : List CookieStep) (name : Text) :
    ∃ pairs received, (∀ given, Received h.fields given ↔ given = pairs) ∧
      received = valuesOf name pairs ∧
      ((ofHeaders h).after steps).get? name =
        (if 2 ≤ received.length then received.getLast?
        else (lastChange? name steps).or received.getLast?) ∧
      (((ofHeaders h).after steps).get? name = (lastChange? name steps).or received.getLast? ↔
        received.length ≤ 1 ∨ lastChange? name steps = none ∨
          lastChange? name steps = received.getLast?) := by
  have found := get?_after (ofHeaders h) steps name
  refine ⟨_, _, fun _ => received_iff_eq, values_eq_valuesOf name _, found, ?_⟩
  rw [found]
  generalize (ofHeaders h).values name = received
  by_cases twice : 2 ≤ received.length
  · have few : ¬ received.length ≤ 1 := by omega
    rw [if_pos twice]
    cases lastChange? name steps with
    | none => simp
    | some value => simp [few, eq_comm]
  · have few : received.length ≤ 1 := by omega
    simp [twice, few]

/-- A request whose `Cookie` field names `a` twice. -/
def twiceNamed : Headers :=
  ⟨[⟨.cookie, .ofVisible "a=1; a=2".toList (by decide)⟩]⟩

/-- With `a=1; a=2` received, setting `a` to `3` changes the first cookie, and a look-up still
finds the value of the second. -/
theorem change_unseen_of_twiceNamed :
    ∃ pairs, Received twiceNamed.fields pairs ∧
      pairs = [("a".toList, "1".toList), ("a".toList, "2".toList)] ∧
      ((ofHeaders twiceNamed).after [.set "a".toList "3".toList]).get? "a".toList =
        some "2".toList ∧
      ((ofHeaders twiceNamed).after [.set "a".toList "3".toList]).get? "a".toList ≠
        (lastChange? "a".toList [.set "a".toList "3".toList]).or
          (valuesOf "a".toList pairs).getLast? :=
  ⟨_, received_iff.mpr (by decide), rfl, by decide, by decide⟩

end CookieJar

end HttpWire
