import HttpWire.Headers
import HttpWire.Proofs.Field.Value
import HttpWire.Proofs.Lists

/-!
# Laws of header fields

The first value of a name is that of the first field that bears it (`Headers.get?_eq_find?`).
Listing fields by their names keeps the values of each name in their order
(`Headers.getAll_toList`), so fields that are listed and put behind others add their values behind
those that were there (`Headers.getAll_foldl_append`).

The values of some names are lists of tokens.  `Headers.Lists` says which tokens are in them, and
that is what is found (`Headers.listsToken_iff`).
-/

namespace HttpWire.Headers

variable {h : Headers} {name : FieldName}

/-! ### The first value -/

theorem get?_eq_find? (fs : List Field) (name : FieldName) :
    get? ⟨fs⟩ name = (fs.find? (·.name = name)).map (·.value) := by
  rw [get?, getAll, List.head?_map, List.head?_filter]

theorem get?_eq_none_iff {fs : List Field} : get? ⟨fs⟩ name = none ↔ ∀ f ∈ fs, f.name ≠ name := by
  rw [get?_eq_find?, Option.map_eq_none_iff, List.find?_eq_none]
  simp only [decide_eq_true_eq]

/-- A field with that value is the first one of the name. -/
def First (h : Headers) (name : FieldName) (v : FieldValue) : Prop :=
  ∃ before after, h.fields = before ++ ⟨name, v⟩ :: after ∧ ∀ f ∈ before, f.name ≠ name

/-- **The value that is found is that of the first field.** -/
theorem first_iff {v : FieldValue} : h.First name v ↔ h.get? name = some v := by
  obtain ⟨fs⟩ := h
  rw [get?_eq_find?, Option.map_eq_some_iff, First]
  constructor
  · rintro ⟨before, after, hfields, hbefore⟩
    refine ⟨⟨name, v⟩, List.find?_eq_some_iff_append.mpr ⟨?_, before, after, hfields, ?_⟩, rfl⟩
    · exact decide_eq_true rfl
    · intro f hf
      simpa using hbefore f hf
  · rintro ⟨f, hfind, rfl⟩
    obtain ⟨hname, before, after, hfields, hbefore⟩ := List.find?_eq_some_iff_append.mp hfind
    obtain rfl : f.name = name := of_decide_eq_true hname
    exact ⟨before, after, hfields, fun g hg => by simpa using hbefore g hg⟩

/-! ### All values -/

theorem getAll_append (fs gs : List Field) (name : FieldName) :
    getAll ⟨fs ++ gs⟩ name = getAll ⟨fs⟩ name ++ getAll ⟨gs⟩ name := by
  rw [getAll, List.filter_append, List.map_append]
  rfl

/-- Fields of one name have their values under that name alone. -/
theorem getAll_map_mk (name other : FieldName) (values : List FieldValue) :
    getAll ⟨values.map (Field.mk name)⟩ other = if name = other then values else [] := by
  rw [getAll, List.filter_map, List.map_map]
  by_cases hname : name = other
  · simp [Function.comp_def, hname]
  · simp [Function.comp_def, hname]

/-- Groups of names that are all different have the values of each name once. -/
theorem getAll_flatMap_group (values : FieldName → List FieldValue) {names : List FieldName}
    (hnodup : names.Nodup) (name : FieldName) :
    getAll ⟨names.flatMap fun n => (values n).map (Field.mk n)⟩ name =
      if name ∈ names then values name else [] := by
  induction names with
  | nil => rfl
  | cons n names ih =>
    obtain ⟨hn, hnodup⟩ := List.nodup_cons.mp hnodup
    rw [List.flatMap_cons, getAll_append, getAll_map_mk, ih hnodup]
    by_cases hname : n = name
    · subst hname
      simp [hn]
    · simp [hname, Ne.symm hname]

/-- **Listing fields by their names keeps the values of each name.** -/
theorem getAll_toList (h : Headers) (name : FieldName) :
    getAll ⟨h.toList⟩ name = h.getAll name := by
  have hnodup : h.names.Nodup := nodup_eraseDups _
  rw [toList, getAll_flatMap_group h.getAll hnodup]
  split
  · rfl
  · next hname =>
    -- A name that is not listed has no values.
    rw [names, List.mem_eraseDups, List.mem_map] at hname
    symm
    rw [getAll, List.map_eq_nil_iff, List.filter_eq_nil_iff]
    intro f hf hsame
    exact hname ⟨f, hf, of_decide_eq_true hsame⟩

/-- Fields are listed by their names: the first one and all others of its name, and behind them the
remaining ones in the same way. -/
inductive Grouped : List Field → List Field → Prop
  | nil : Grouped [] []
  | group {f : Field} {fs listed : List Field}
    (h : Grouped (fs.filter (·.name ≠ f.name)) listed) :
    Grouped (f :: fs) (f :: fs.filter (·.name = f.name) ++ listed)

/-- Listing takes the group of the first name to the front. -/
theorem toList_cons (f : Field) (fs : List Field) :
    toList ⟨f :: fs⟩ =
      f :: fs.filter (·.name = f.name) ++ toList ⟨fs.filter (·.name ≠ f.name)⟩ := by
  have hnames : names ⟨f :: fs⟩ = f.name :: names ⟨fs.filter (·.name ≠ f.name)⟩ := by
    rw [names, List.map_cons, List.eraseDups_cons, List.filter_map]
    congr 2
    apply congrArg (List.map _)
    apply List.filter_congr
    intro g _
    rw [Function.comp_apply, Bool.not_eq_eq_eq_not, Bool.eq_iff_iff]
    simp
  have hgroup : (getAll ⟨f :: fs⟩ f.name).map (Field.mk f.name) =
      f :: fs.filter (·.name = f.name) := by
    have hfilter : (f :: fs).filter (·.name = f.name) = f :: fs.filter (·.name = f.name) :=
      List.filter_cons_of_pos (decide_eq_true rfl)
    rw [getAll, hfilter, List.map_map]
    refine (List.map_congr_left fun g hg => ?_).trans (List.map_id _)
    rw [← hfilter] at hg
    rw [Function.comp_apply, ← of_decide_eq_true (List.mem_filter.mp hg).2]
    rfl
  rw [toList, hnames, List.flatMap_cons, hgroup, toList, List.flatMap_def, List.flatMap_def]
  refine congrArg (f :: fs.filter (·.name = f.name) ++ List.flatten ·) (List.map_congr_left ?_)
  intro name hname
  -- The name is that of a field that is left, so the group that went away is not among its values.
  have hne : name ≠ f.name := by
    rw [names, List.mem_eraseDups, List.mem_map] at hname
    obtain ⟨g, hg, rfl⟩ := hname
    exact of_decide_eq_true (List.mem_filter.mp hg).2
  rw [getAll, getAll, List.filter_cons_of_neg (by simpa using hne.symm), List.filter_filter]
  refine congrArg (fun l => (List.map _ l).map _) (List.filter_congr fun g _ => ?_)
  by_cases hg : g.name = name <;> simp [hg, hne]

/-- **Fields are listed by their names.** -/
theorem grouped_iff {fs listed : List Field} : Grouped fs listed ↔ toList ⟨fs⟩ = listed := by
  constructor
  · intro h
    induction h with
    | nil => rfl
    | group _ ih => rw [toList_cons, ih]
  · rintro rfl
    induction hn : fs.length using Nat.strongRecOn generalizing fs with
    | ind n ih =>
      cases fs with
      | nil => exact .nil
      | cons f fs =>
        have hlt : (fs.filter (·.name ≠ f.name)).length < n := by
          rw [← hn, List.length_cons]
          exact Nat.lt_succ_of_le (List.length_filter_le ..)
        rw [toList_cons]
        exact .group (ih _ hlt rfl)

theorem foldl_append (fs : List Field) (h : Headers) : fs.foldl append h = ⟨h.fields ++ fs⟩ := by
  induction fs generalizing h with
  | nil => rw [List.foldl_nil, List.append_nil]
  | cons f fs ih => rw [List.foldl_cons, ih, append, List.append_assoc, List.singleton_append]

/-- Fields that are put behind others have their values behind the others' ones. -/
theorem getAll_foldl_append (more h : Headers) (name : FieldName) :
    (more.toList.foldl append h).getAll name = h.getAll name ++ more.getAll name := by
  rw [foldl_append, getAll_append, getAll_toList]

/-- A name that there is already keeps its first value. -/
theorem get?_of_getAll {more h' : Headers}
    (hall : h'.getAll name = h.getAll name ++ more.getAll name)
    (hname : h.contains name = true) : h'.get? name = h.get? name := by
  rw [contains, get?, List.isSome_head?] at hname
  obtain ⟨v, vs, hcons⟩ := List.exists_cons_of_ne_nil hname
  rw [get?, hall, get?, hcons]
  rfl

/-! ### Lists of tokens -/

/-- Some value of the name is a list with commas between its items, one of which is the token in any
letter case, with or without white space around it. -/
def Lists (h : Headers) (name : FieldName) (token : Text) : Prop :=
  ∃ f ∈ h.fields, f.name = name ∧ ∃ t items item word, f.value.Says t ∧ Separated ',' items t ∧
    item ∈ items ∧ Text.Surrounds word item ∧ word.map Char.toLower = token.map Char.toLower

theorem mem_getAll {v : FieldValue} :
    v ∈ h.getAll name ↔ ∃ f ∈ h.fields, f.name = name ∧ f.value = v := by
  simp only [getAll, List.mem_map, List.mem_filter, decide_eq_true_eq, and_assoc]

/-- **The tokens that are found are those that are listed.** -/
theorem listsToken_iff {token : Text} : h.listsToken name token = true ↔ h.Lists name token := by
  simp only [listsToken, List.any_eq_true, List.mem_filterMap, FieldValue.text?_eq_some_iff,
    Text.sameIgnoringCase, beq_iff_eq]
  have hvisible {v : FieldValue} {t item : Text} {items : List Text} (hsaid : v.Says t)
      (hitems : Separated ',' items t) (hitem : item ∈ items) : item.IsVisible :=
    fun c hc => hsaid.1 c (hitems.mem_of_mem hitem hc)
  constructor
  · rintro ⟨t, ⟨v, hv, hsaid⟩, item, hitem, hsame⟩
    obtain ⟨f, hf, hname, rfl⟩ := mem_getAll.mp hv
    have hitems := separated_splitOn ',' t
    exact ⟨f, hf, hname, t, _, item, _, hsaid, hitems, hitem,
      (hvisible hsaid hitems hitem).trim_eq_iff.mp rfl, hsame⟩
  · rintro ⟨f, hf, hname, t, items, item, word, hsaid, hitems, hitem, hword, hsame⟩
    obtain rfl := (hvisible hsaid hitems hitem).trim_eq_iff.mpr hword
    rw [← separated_iff.mp hitems] at hitem
    exact ⟨t, ⟨f.value, mem_getAll.mpr ⟨f, hf, hname, rfl⟩, hsaid⟩, item, hitem, hsame⟩

instance (h : Headers) (name : FieldName) (token : Text) : Decidable (h.Lists name token) :=
  decidable_of_iff _ listsToken_iff

theorem listsToken_eq_false_iff {token : Text} :
    h.listsToken name token = false ↔ ¬ h.Lists name token := by
  rw [← Bool.not_eq_true, listsToken_iff]

end HttpWire.Headers
