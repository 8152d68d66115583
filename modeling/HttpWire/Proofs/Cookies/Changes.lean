import Mathlib.Data.List.Basic
import HttpWire.Proofs.Cookies.Lookup
import HttpWire.Proofs.Lists

/-!
# What a cookie jar sends back

A change goes to the first cookie of its name, so at most one cookie of a name is ever touched, and
that one is the first (`OnlyFirstTouched`).  What is sent is then told by the first cookie of each
name, taken in the order in which the names first appear (`filter_touched`).

A run of steps adds names behind those that were received (`names_after`) and leaves the last change
of a name in the first cookie of it (`first?_after`).  Together these say what is sent: the net
effect of the steps, each changed name once, with the received names in front
(`setCookies_after_ofHeaders`).
-/

namespace HttpWire

/-- The names that some steps change, in the order of the changes. -/
def changedNames (steps : List CookieStep) : List Text :=
  (steps.filterMap CookieStep.change?).map Prod.fst

theorem changedNames_concat (steps : List CookieStep) (step : CookieStep) :
    changedNames (steps ++ [step]) = changedNames steps ++ (step.change?.map Prod.fst).toList := by
  cases h : step.change? <;> simp [changedNames, h]

/-- A name has a last change if it is changed at all. -/
theorem isSome_lastChange?_iff {name : Text} {steps : List CookieStep} :
    (lastChange? name steps).isSome ↔ name ∈ changedNames steps := by
  induction steps using List.reverseRecOn with
  | nil => simp [lastChange?, changedNames]
  | append_singleton steps step ih =>
    rw [lastChange?_concat, changedNames_concat, List.mem_append, ← ih, CookieStep.valueFor?]
    cases h : step.change? with
    | none => simp
    | some change =>
      by_cases hname : change.1 = name
      · simp [hname]
      · simp [hname, Ne.symm hname]

namespace CookieJar

variable {name other value : Text} {cookies : List Cookie}

/-! ### Names and first cookies -/

/-- The names of some cookies. -/
def namesOf (cookies : List Cookie) : List Text :=
  cookies.map (·.name)

/-- The first cookie of a name. -/
def first? (name : Text) (cookies : List Cookie) : Option Cookie :=
  cookies.find? (·.name = name)

/-- A change adds its name behind the others, if it is not among them. -/
theorem namesOf_setIn (name value : Text) (cookies : List Cookie) :
    namesOf (setIn name value cookies) =
      if name ∈ namesOf cookies then namesOf cookies else namesOf cookies ++ [name] := by
  induction cookies with
  | nil => simp [setIn, namesOf]
  | cons c rest ih =>
    by_cases hc : c.name = name
    · simp [setIn, namesOf, hc]
    · simp only [namesOf] at ih
      simp only [setIn, if_neg hc, namesOf, List.map_cons, ih, List.mem_cons, Ne.symm hc, false_or]
      split <;> simp_all

/-- A change is found in the first cookie of its name. -/
theorem first?_setIn_self (name value : Text) (cookies : List Cookie) :
    first? name (setIn name value cookies) = some { name, value, touched := true } := by
  induction cookies with
  | nil => simp [setIn, first?]
  | cons c rest ih =>
    by_cases hc : c.name = name
    · simp [setIn, first?, hc]
    · simpa [setIn, first?, hc] using ih

/-- A change leaves the first cookies of all other names as they are. -/
theorem first?_setIn_of_ne (hne : name ≠ other) (value : Text) (cookies : List Cookie) :
    first? other (setIn name value cookies) = first? other cookies := by
  induction cookies with
  | nil => simp [setIn, first?, hne]
  | cons c rest ih =>
    by_cases hc : c.name = name
    · simp [setIn, first?, hc, hne]
    · simp only [setIn, if_neg hc, first?, List.find?_cons] at ih ⊢
      rw [ih]

/-! ### Touched cookies -/

/-- Behind a cookie none of its name is touched. -/
def OnlyFirstTouched (cookies : List Cookie) : Prop :=
  cookies.Pairwise fun c d => c.name = d.name → d.touched = false

/-- A change goes to the first cookie of its name. -/
theorem OnlyFirstTouched.setIn (h : OnlyFirstTouched cookies) (name value : Text) :
    OnlyFirstTouched (setIn name value cookies) := by
  have mem_setIn {c : Cookie} {l : List Cookie} (hc : c ∈ CookieJar.setIn name value l) :
      c ∈ l ∨ c.name = name := by
    induction l with
    | nil => simp_all [CookieJar.setIn]
    | cons d rest ih => grind [CookieJar.setIn]
  induction cookies with
  | nil => simp [CookieJar.setIn, OnlyFirstTouched]
  | cons c rest ih =>
    obtain ⟨hfirst, hrest⟩ := List.pairwise_cons.mp h
    by_cases hc : c.name = name
    · rw [CookieJar.setIn, if_pos hc]
      refine List.pairwise_cons.mpr ⟨?_, hrest⟩
      intro d hd hname
      exact hfirst d hd (hc.trans hname)
    · rw [CookieJar.setIn, if_neg hc]
      refine List.pairwise_cons.mpr ⟨?_, ih hrest⟩
      intro d hd hname
      rcases mem_setIn hd with hd | hd
      · exact hfirst d hd hname
      · exact absurd (hname.trans hd) hc

/-- Behind the first cookie, the touched ones are among those of other names. -/
theorem OnlyFirstTouched.filter_behind {c : Cookie} {rest : List Cookie}
    (h : OnlyFirstTouched (c :: rest)) :
    rest.filter (·.touched) = (rest.filter fun d => !d.name == c.name).filter (·.touched) := by
  rw [List.filter_filter]
  apply List.filter_congr
  intro d hd
  have := (List.pairwise_cons.mp h).1 d hd
  grind

/-- Leaving out the cookies of another name does not change which cookie of a name is the first. -/
theorem first?_filter_of_ne (hne : name ≠ other) (cookies : List Cookie) :
    first? name (cookies.filter fun d => !d.name == other) = first? name cookies := by
  rw [first?, first?, List.find?_filter]
  congr 1
  grind

/-- **The touched cookies are told by the first cookie of each name**, in the order in which the
names first appear. -/
theorem filter_touched (h : OnlyFirstTouched cookies) :
    cookies.filter (·.touched) =
      (namesOf cookies).eraseDups.filterMap fun name =>
        (first? name cookies).filter (·.touched) := by
  -- By induction on the number of cookies: behind the first one, only those of other names count.
  induction hn : cookies.length using Nat.strongRecOn generalizing cookies with
  | ind n ih =>
    cases cookies with
    | nil => simp [namesOf]
    | cons c rest =>
      let others := rest.filter fun d => !d.name == c.name
      have hnames : (namesOf rest).filter (fun name => !name == c.name) = namesOf others := by
        rw [namesOf, List.filter_map]
        rfl
      have hlt : others.length < n := by
        rw [← hn, List.length_cons]
        exact Nat.lt_succ_of_le (List.length_filter_le ..)
      have hothers := ih others.length hlt (h.of_cons.sublist List.filter_sublist) rfl
      have hsame : (namesOf others).eraseDups.filterMap
            (fun name => (first? name (c :: rest)).filter (·.touched)) =
          others.filter (·.touched) := by
        rw [hothers]
        apply List.filterMap_congr
        intro name hname
        obtain ⟨d, hd, rfl⟩ := List.mem_map.mp (List.mem_eraseDups.mp hname)
        have hne : d.name ≠ c.name := by simpa using (List.mem_filter.mp hd).2
        rw [first?_filter_of_ne hne, first?, List.find?_cons_of_neg (by simp [hne.symm]), first?]
      have hself : first? c.name (c :: rest) = some c := by simp [first?]
      rw [show namesOf (c :: rest) = c.name :: namesOf rest from rfl, List.eraseDups_cons, hnames,
        List.filterMap_cons, hself, hsame, List.filter_cons, h.filter_behind, Option.filter_some]
      cases c.touched <;> rfl

/-! ### Behind a run of steps -/

variable {jar : CookieJar}

/-- A change is a cookie that is set, and a step that is none leaves the jar as it is. -/
theorem step_eq (jar : CookieJar) (step : CookieStep) :
    (jar.step step).2 = step.change?.elim jar fun change => jar.set change.1 change.2 := by
  cases step <;> rfl

theorem onlyFirstTouched_after (h : jar.Untouched) (steps : List CookieStep) :
    OnlyFirstTouched (jar.after steps).cookies := by
  induction steps using List.reverseRecOn with
  | nil => exact List.pairwise_iff_forall_sublist.mpr fun hs _ => h _ (hs.subset (by simp))
  | append_singleton steps step ih =>
    rw [after_concat, step_eq]
    cases step.change? with
    | none => exact ih
    | some change => exact ih.setIn change.1 change.2

/-- What a run of steps makes of the first cookie of a name. -/
theorem first?_after (jar : CookieJar) (steps : List CookieStep) (name : Text) :
    first? name (jar.after steps).cookies =
      (lastChange? name steps).elim (first? name jar.cookies) fun value =>
        some { name, value, touched := true } := by
  induction steps using List.reverseRecOn with
  | nil => rfl
  | append_singleton steps step ih =>
    rw [after_concat, step_eq, lastChange?_concat, CookieStep.valueFor?]
    cases step.change? with
    | none => simpa using ih
    | some change =>
      obtain ⟨changed, value⟩ := change
      by_cases hname : changed = name
      · simp [hname, set, first?_setIn_self]
      · simpa [hname, set, first?_setIn_of_ne hname] using ih

/-- Names behind those that were there are added in the order of the changes. -/
theorem names_after (jar : CookieJar) (steps : List CookieStep) :
    (namesOf (jar.after steps).cookies).eraseDups =
      (namesOf jar.cookies ++ changedNames steps).eraseDups := by
  induction steps using List.reverseRecOn with
  | nil => simp [after, changedNames]
  | append_singleton steps step ih =>
    rw [after_concat, step_eq, changedNames_concat]
    cases step.change? with
    | none => simpa using ih
    | some change =>
      obtain ⟨name, value⟩ := change
      have hmem : name ∈ namesOf (jar.after steps).cookies ↔
          name ∈ namesOf jar.cookies ++ changedNames steps := by
        rw [← List.mem_eraseDups, ih, List.mem_eraseDups]
      show (namesOf (setIn name value (jar.after steps).cookies)).eraseDups =
        (namesOf jar.cookies ++ (changedNames steps ++ [name])).eraseDups
      rw [namesOf_setIn, ← List.append_assoc, eraseDups_concat, ← ih]
      simp only [← hmem]
      split
      · rfl
      · next h => rw [eraseDups_concat, if_neg h]

/-! ### What is sent -/

/-- The names that steps change, each once: those that were received, in the order in which they
first came, and then the others, in the order in which they were first changed. -/
def namesToSend (received : List Text) (steps : List CookieStep) : List Text :=
  received.eraseDups.filter (· ∈ changedNames steps) ++
    ((changedNames steps).filter (· ∉ received)).eraseDups

/-- The last change of a name, with the name. -/
def lastCookie? (steps : List CookieStep) (name : Text) : Option (Text × Text) :=
  (lastChange? name steps).map fun value => (name, value)

/-- The touched cookies behind a run of steps are the last changes of the names. -/
theorem touched_after (h : Headers) (steps : List CookieStep) :
    ((ofHeaders h).after steps).cookies.filter (·.touched) =
      ((namesOf (ofHeaders h).cookies ++ changedNames steps).eraseDups.filterMap
        (lastCookie? steps)).map fun entry =>
          { name := entry.1, value := entry.2, touched := true } := by
  have huntouched := untouched_ofHeaders h
  rw [filter_touched (onlyFirstTouched_after huntouched steps), names_after, List.map_filterMap]
  apply List.filterMap_congr
  intro name _
  rw [first?_after, lastCookie?]
  cases lastChange? name steps with
  | some value => simp
  | none =>
    cases hfirst : first? name (ofHeaders h).cookies with
    | none => simp
    | some c => simp [huntouched c (List.mem_of_find?_eq_some hfirst)]

theorem map_fst_lastCookie? (names : List Text) (steps : List CookieStep) :
    (names.filterMap (lastCookie? steps)).map Prod.fst =
      names.filter (· ∈ changedNames steps) := by
  induction names with
  | nil => rfl
  | cons name names ih =>
    have hiff : (lastChange? name steps).isSome ↔ name ∈ changedNames steps :=
      isSome_lastChange?_iff
    cases hlast : lastChange? name steps <;> simp_all [lastCookie?]

theorem mem_lastCookies_iff {names : List Text} {steps : List CookieStep} {name value : Text}
    (h : ∀ changed ∈ changedNames steps, changed ∈ names) :
    (name, value) ∈ names.filterMap (lastCookie? steps) ↔ lastChange? name steps = some value := by
  rw [List.mem_filterMap]
  constructor
  · rintro ⟨other, -, hentry⟩
    obtain ⟨last, hlast, heq⟩ := Option.map_eq_some_iff.mp hentry
    cases heq
    exact hlast
  · intro hlast
    have hchanged : name ∈ changedNames steps := isSome_lastChange?_iff.mp (by simp [hlast])
    exact ⟨name, h name hchanged, by simp [lastCookie?, hlast]⟩

/-- The names in front are those that were received, each once. -/
theorem filter_changedNames (received changed : List Text) :
    (received ++ changed).eraseDups.filter (· ∈ changed) =
      received.eraseDups.filter (· ∈ changed) ++ (changed.filter (· ∉ received)).eraseDups := by
  have hnew : changed.removeAll received = changed.filter (· ∉ received) := by
    simp [List.removeAll]
  rw [List.eraseDups_append, List.filter_append, hnew]
  congr 1
  rw [List.filter_eq_self]
  intro name hname
  simpa using (List.mem_filter.mp (List.mem_eraseDups.mp hname)).1

/-- **What is sent is the net effect of the steps.**  Each name that was ever changed is sent once,
with the value that its last change gave it, and no other name is; the names that the client sent
come first, in the order in which they first came, and then the others, in the order in which they
were first changed. -/
theorem setCookies_after_ofHeaders (h : Headers) (steps : List CookieStep) :
    ∃ pairs entries : List (Text × Text), (∀ given, Received h.fields given ↔ given = pairs) ∧
      ((ofHeaders h).after steps).setCookies = entries.map (fun entry =>
          if entry.2 = [] then entry.1 ++ "=; Max-Age=0".toList else entry.1 ++ '=' :: entry.2) ∧
        (∀ name value, (name, value) ∈ entries ↔ lastChange? name steps = some value) ∧
        (entries.map Prod.fst).Nodup ∧
        entries.map Prod.fst = namesToSend (pairs.map Prod.fst) steps := by
  let received := namesOf (ofHeaders h).cookies
  have hreceived : received = ((ofHeaders h).cookies.map Cookie.pair).map Prod.fst := by
    rw [List.map_map]
    rfl
  have hnames := map_fst_lastCookie? (received ++ changedNames steps).eraseDups steps
  refine ⟨_, (received ++ changedNames steps).eraseDups.filterMap (lastCookie? steps),
    fun _ => received_iff_eq, ?_, ?_, ?_, ?_⟩
  · rw [setCookies, touched_after, List.map_map]
    apply List.map_congr_left
    intro entry _
    simp only [setCookieText, Function.comp_apply, List.isEmpty_iff]
  · intro name value
    apply mem_lastCookies_iff
    intro changed hchanged
    exact List.mem_eraseDups.mpr (List.mem_append_right _ hchanged)
  · rw [hnames]
    exact (nodup_eraseDups _).filter _
  · rw [hnames, filter_changedNames, namesToSend, ← hreceived]

example :
    ((ofHeaders ⟨[⟨.cookie, .ofVisible "session=abc; theme=dark".toList (by decide)⟩,
        ⟨.cookie, .ofVisible "lang=en".toList (by decide)⟩]⟩).after
      [.set "theme".toList "light".toList, .set "new".toList "1".toList,
        .remove "session".toList]).setCookies =
      ["session=; Max-Age=0".toList, "theme=light".toList, "new=1".toList] := by
  decide

end CookieJar

end HttpWire
