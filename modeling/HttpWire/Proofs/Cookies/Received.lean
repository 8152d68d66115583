import HttpWire.Cookies
import HttpWire.Proofs.Headers

/-!
# The cookies that a client sent

The value of a `Cookie` field is a list of pieces with semicolons between them.  A piece with an
equals sign in it gives a value to a name, if the name is not empty (`Gives`); any other piece says
nothing.  `Received` puts together what all `Cookie` fields give, in their order.

A jar starts with these pairs and no others (`received_iff`).
-/

namespace HttpWire

/-- The name and the value of a cookie. -/
def Cookie.pair (c : Cookie) : Text × Text :=
  (c.name, c.value)

namespace CookieJar

/-! ### What fields give -/

/-- A piece gives a value to a name: they stand on the two sides of its first equals sign, with or
without white space around them. -/
def Gives (piece name value : Text) : Prop :=
  name ≠ [] ∧ ∃ before after, piece = before ++ '=' :: after ∧ '=' ∉ before ∧
    Text.Surrounds name before ∧ Text.Surrounds value after

/-- What the pieces of a list give, in their order. -/
inductive GivesAll : List Text → List (Text × Text) → Prop
  | nil : GivesAll [] []
  | given {piece name value pieces pairs} (h : Gives piece name value)
    (hrest : GivesAll pieces pairs) : GivesAll (piece :: pieces) ((name, value) :: pairs)
  | passedOver {piece pieces pairs} (h : ∀ name value, ¬ Gives piece name value)
    (hrest : GivesAll pieces pairs) : GivesAll (piece :: pieces) pairs

/-- What the `Cookie` fields among some fields give, in their order.  A value that says no text is
passed over. -/
inductive Received : List Field → List (Text × Text) → Prop
  | nil : Received [] []
  | cookie {v t pieces pairs fs pairs'} (hsaid : FieldValue.Says v t)
    (hpieces : Separated ';' pieces t) (hpairs : GivesAll pieces pairs)
    (hrest : Received fs pairs') : Received (⟨.cookie, v⟩ :: fs) (pairs ++ pairs')
  | unreadable {v fs pairs} (h : ∀ t, ¬ FieldValue.Says v t) (hrest : Received fs pairs) :
    Received (⟨.cookie, v⟩ :: fs) pairs
  | other {f fs pairs} (h : f.name ≠ .cookie) (hrest : Received fs pairs) : Received (f :: fs) pairs

/-! ### What is read -/

variable {piece name value : Text} {pieces : List Text} {pairs : List (Text × Text)}
  {fs : List Field}

/-- The name and the value that are read in a piece. -/
def pair? (piece : Text) : Option (Text × Text) :=
  (readPair? piece).map Cookie.pair

/-- **A visible piece is read as the pair that it gives.** -/
theorem gives_iff (hpiece : piece.IsVisible) :
    Gives piece name value ↔ pair? piece = some (name, value) := by
  have hsides {before after : Text} (h : piece = before ++ '=' :: after) :
      before.IsVisible ∧ after.IsVisible := by
    subst h
    exact ⟨fun c hc => hpiece c (List.mem_append_left _ hc),
      fun c hc => hpiece c (List.mem_append_right _ (List.mem_cons_of_mem _ hc))⟩
  unfold Gives pair? readPair?
  constructor
  · rintro ⟨hname, before, after, hwritten, hno, hbefore, hafter⟩
    obtain ⟨hvisible, hvisible'⟩ := hsides hwritten
    obtain rfl := hvisible.trim_eq_iff.mpr hbefore
    obtain rfl := hvisible'.trim_eq_iff.mpr hafter
    rw [hwritten, splitFirst_beq_append_cons hno]
    dsimp only
    rw [if_neg (by rwa [List.isEmpty_iff])]
    rfl
  · intro h
    cases hcut : splitFirst (· == '=') piece with
    | none =>
      rw [hcut] at h
      cases h
    | some parts =>
      obtain ⟨before, sep, after⟩ := parts
      obtain ⟨rfl, hwritten, hno⟩ := splitFirst_beq_eq_some_iff.mp hcut
      rw [hcut] at h
      dsimp only at h
      split at h
      · cases h
      · next hname =>
        cases h
        obtain ⟨hvisible, hvisible'⟩ := hsides hwritten
        exact ⟨by rwa [List.isEmpty_iff] at hname, before, after, hwritten, hno,
          hvisible.trim_eq_iff.mp rfl, hvisible'.trim_eq_iff.mp rfl⟩

theorem givesAll_iff (hpieces : ∀ piece ∈ pieces, piece.IsVisible) :
    GivesAll pieces pairs ↔ pieces.filterMap pair? = pairs := by
  constructor
  · intro h
    induction h with
    | nil => rfl
    | given h _ ih =>
      obtain ⟨hpiece, hrest⟩ := List.forall_mem_cons.mp hpieces
      rw [List.filterMap_cons_some ((gives_iff hpiece).mp h), ih hrest]
    | @passedOver piece _ _ h _ ih =>
      obtain ⟨hpiece, hrest⟩ := List.forall_mem_cons.mp hpieces
      have hnone : pair? piece = none := by
        rw [Option.eq_none_iff_forall_ne_some]
        exact fun pair hpair => h pair.1 pair.2 ((gives_iff hpiece).mpr hpair)
      rw [List.filterMap_cons_none hnone, ih hrest]
  · rintro rfl
    induction pieces with
    | nil => exact .nil
    | cons piece pieces ih =>
      obtain ⟨hpiece, hrest⟩ := List.forall_mem_cons.mp hpieces
      cases hread : pair? piece with
      | none =>
        rw [List.filterMap_cons_none hread]
        refine .passedOver (fun name value h => ?_) (ih hrest)
        rw [gives_iff hpiece, hread] at h
        cases h
      | some pair =>
        rw [List.filterMap_cons_some hread]
        exact .given ((gives_iff hpiece).mpr hread) (ih hrest)

theorem pairs_ofHeaders_cons (f : Field) (fs : List Field) :
    (ofHeaders ⟨f :: fs⟩).cookies.map Cookie.pair =
      (if f.name = .cookie then f.value.text?.elim [] fun t => (t.splitOn ';').filterMap pair?
        else []) ++ (ofHeaders ⟨fs⟩).cookies.map Cookie.pair := by
  have hfirst : Headers.getAll ⟨[f]⟩ .cookie = if f.name = .cookie then [f.value] else [] :=
    Headers.getAll_map_mk f.name .cookie [f.value]
  rw [ofHeaders, ofHeaders, ← List.singleton_append, Headers.getAll_append, List.filterMap_append,
    List.flatMap_append, hfirst, List.map_append]
  refine congrArg (· ++ _) ?_
  split
  · cases htext : f.value.text? with
    | none =>
      rw [List.filterMap_cons_none htext]
      rfl
    | some t =>
      rw [List.filterMap_cons_some htext, List.filterMap_nil, List.flatMap_singleton,
        List.map_filterMap]
      rfl
  · rfl

/-- **A jar starts with what its client sent.** -/
theorem received_iff :
    Received fs pairs ↔ (ofHeaders ⟨fs⟩).cookies.map Cookie.pair = pairs := by
  have hvisible {v : FieldValue} {t : Text} {pieces : List Text} (hsaid : v.Says t)
      (hpieces : Separated ';' pieces t) : ∀ piece ∈ pieces, piece.IsVisible :=
    fun piece hpiece c hc => hsaid.1 c (hpieces.mem_of_mem hpiece hc)
  constructor
  · intro h
    induction h with
    | nil => rfl
    | cookie hsaid hpieces hpairs _ ih =>
      rw [pairs_ofHeaders_cons, if_pos rfl, FieldValue.text?_eq_some_iff.mpr hsaid,
        Option.elim_some, ih, separated_iff.mp hpieces,
        (givesAll_iff (hvisible hsaid hpieces)).mp hpairs]
    | @unreadable v _ _ h _ ih =>
      have hnone : v.text? = none := by
        rw [Option.eq_none_iff_forall_ne_some]
        exact fun t ht => h t (FieldValue.text?_eq_some_iff.mp ht)
      rw [pairs_ofHeaders_cons, if_pos rfl, hnone, Option.elim_none, List.nil_append, ih]
    | other h _ ih => rw [pairs_ofHeaders_cons, if_neg h, List.nil_append, ih]
  · rintro rfl
    induction fs with
    | nil => exact .nil
    | cons f fs ih =>
      rw [pairs_ofHeaders_cons]
      obtain ⟨name, v⟩ := f
      split
      · next hname =>
        obtain rfl : name = .cookie := hname
        cases htext : v.text? with
        | none =>
          refine .unreadable (fun t hsaid => ?_) ih
          rw [FieldValue.text?_eq_some_iff.mpr hsaid] at htext
          cases htext
        | some t =>
          have hsaid := FieldValue.text?_eq_some_iff.mp htext
          have hpieces := separated_splitOn ';' t
          exact .cookie hsaid hpieces ((givesAll_iff (hvisible hsaid hpieces)).mpr rfl) ih
      · next hname => exact .other hname ih

/-- A client has sent one row of pairs. -/
theorem received_iff_eq {h : Headers} :
    Received h.fields pairs ↔ pairs = (ofHeaders h).cookies.map Cookie.pair := by
  rw [received_iff, eq_comm]

/-! ### What is not sent back -/

/-- Nothing has been changed yet. -/
def Untouched (jar : CookieJar) : Prop :=
  ∀ c ∈ jar.cookies, c.touched = false

theorem untouched_ofHeaders (h : Headers) : (ofHeaders h).Untouched := by
  intro c hc
  obtain ⟨value, -, hc⟩ := List.mem_flatMap.mp hc
  obtain ⟨pair, -, hpair⟩ := List.mem_filterMap.mp hc
  grind [readPair?]

/-- The cookies of a request are not sent back. -/
theorem setCookies_ofHeaders (h : Headers) : (ofHeaders h).setCookies = [] := by
  rw [setCookies, List.map_eq_nil_iff, List.filter_eq_nil_iff]
  intro c hc
  rw [untouched_ofHeaders h c hc]
  exact Bool.false_ne_true

end CookieJar

end HttpWire
