import HttpWire.Text.Split

/-!
# Laws of cutting

How `splitFirst` and `splitLast` act on a concatenation, and what the parts of a cut are made of.
With them a text that was put together around separators is taken apart again.
-/

namespace HttpWire

variable {α : Type} {p : α → Bool} {l before after : List α} {sep : α}

/-! ### The first separator -/

theorem splitFirst_eq_none_iff : splitFirst p l = none ↔ ∀ a ∈ l, p a = false := by
  induction l with
  | nil => simp [splitFirst]
  | cons a as ih =>
    by_cases ha : p a
    · simp [splitFirst, ha]
    · simp [splitFirst, ha, ih]

/-- What the parts of a cut are: the separator passes the test and nothing before it does. -/
theorem splitFirst_eq_some_iff :
    splitFirst p l = some (before, sep, after) ↔
      l = before ++ sep :: after ∧ p sep = true ∧ ∀ a ∈ before, p a = false := by
  constructor
  · intro h
    refine ⟨splitFirst_eq_some h, ?_⟩
    -- Up to the first element that passes the test nothing does.
    induction l generalizing before with
    | nil => simp [splitFirst] at h
    | cons a as ih =>
      by_cases ha : p a
      · simp only [splitFirst, ha, if_true, Option.some.injEq, Prod.mk.injEq] at h
        obtain ⟨rfl, rfl, rfl⟩ := h
        exact ⟨ha, by simp⟩
      · rw [splitFirst, if_neg ha, Option.map_eq_some_iff] at h
        obtain ⟨⟨b, s, c⟩, hs, heq⟩ := h
        obtain ⟨rfl, rfl, rfl⟩ := heq
        obtain ⟨hsep, hb⟩ := ih hs
        refine ⟨hsep, ?_⟩
        intro x hx
        rcases List.mem_cons.mp hx with rfl | hx
        · simpa using ha
        · exact hb x hx
  · rintro ⟨rfl, hsep, hb⟩
    induction before with
    | nil => simp [splitFirst, hsep]
    | cons a as ih =>
      have ha : p a = false := hb a (List.mem_cons_self ..)
      rw [List.cons_append, splitFirst, if_neg (by simp [ha]),
        ih fun x hx => hb x (List.mem_cons_of_mem _ hx)]
      rfl

/-- The parts of a cut at the first separator are found again. -/
theorem splitFirst_append_cons (hb : ∀ a ∈ before, p a = false) (hsep : p sep = true) :
    splitFirst p (before ++ sep :: after) = some (before, sep, after) :=
  splitFirst_eq_some_iff.mpr ⟨rfl, hsep, hb⟩

/-- A cut does not depend on what follows the separator. -/
theorem splitFirst_append_of_some (h : splitFirst p l = some (before, sep, after)) (m : List α) :
    splitFirst p (l ++ m) = some (before, sep, after ++ m) := by
  obtain ⟨rfl, hsep, hb⟩ := splitFirst_eq_some_iff.mp h
  rw [List.append_assoc, List.cons_append]
  exact splitFirst_append_cons hb hsep

/-- Without a separator in front the cut is made behind. -/
theorem splitFirst_append_of_none (h : splitFirst p l = none) (m : List α) :
    splitFirst p (l ++ m) =
      (splitFirst p m).map fun (before, sep, after) => (l ++ before, sep, after) := by
  rw [splitFirst_eq_none_iff] at h
  induction l with
  | nil => simp
  | cons a as ih =>
    have ha : p a = false := h a (List.mem_cons_self ..)
    rw [List.cons_append, splitFirst, if_neg (by simp [ha]),
      ih fun x hx => h x (List.mem_cons_of_mem _ hx), Option.map_map]
    rfl

/-- Nothing in a list is the separator if the separator is not in it. -/
theorem forall_beq_eq_false_iff [BEq α] [LawfulBEq α] :
    (∀ a ∈ l, (a == sep) = false) ↔ sep ∉ l := by
  constructor
  · intro h hmem
    simpa using h sep hmem
  · rintro h a ha
    rw [beq_eq_false_iff_ne]
    rintro rfl
    exact h ha

theorem splitFirst_beq_eq_none_iff [BEq α] [LawfulBEq α] :
    splitFirst (· == sep) l = none ↔ sep ∉ l :=
  splitFirst_eq_none_iff.trans forall_beq_eq_false_iff

/-- A cut at a given separator is made where it stands first. -/
theorem splitFirst_beq_eq_some_iff [BEq α] [LawfulBEq α] {a : α} :
    splitFirst (· == sep) l = some (before, a, after) ↔
      a = sep ∧ l = before ++ sep :: after ∧ sep ∉ before := by
  rw [splitFirst_eq_some_iff, forall_beq_eq_false_iff, beq_iff_eq]
  constructor
  · rintro ⟨rfl, rfl, hno⟩
    exact ⟨rfl, rfl, hno⟩
  · rintro ⟨rfl, rfl, hno⟩
    exact ⟨rfl, rfl, hno⟩

theorem splitFirst_beq_append_cons [BEq α] [LawfulBEq α] (h : sep ∉ before) :
    splitFirst (· == sep) (before ++ sep :: after) = some (before, sep, after) :=
  splitFirst_beq_eq_some_iff.mpr ⟨rfl, rfl, h⟩

/-- What stands before the first separator is what does not pass the test, from the beginning on. -/
theorem cutFirst_fst (p : α → Bool) (l : List α) : (cutFirst p l).1 = l.takeWhile (!p ·) := by
  rw [cutFirst]
  cases hs : splitFirst p l with
  | none =>
    have hno := splitFirst_eq_none_iff.mp hs
    show l = _
    rw [← List.append_nil l, List.takeWhile_append_of_pos (by simpa using hno)]
    rfl
  | some parts =>
    obtain ⟨before, sep, after⟩ := parts
    obtain ⟨rfl, hsep, hno⟩ := splitFirst_eq_some_iff.mp hs
    rw [List.takeWhile_append_of_pos (by simpa using hno),
      List.takeWhile_cons_of_neg (by simp [hsep]), List.append_nil]

/-! ### The last separator -/

theorem splitLast_eq_none_iff : splitLast p l = none ↔ ∀ a ∈ l, p a = false := by
  induction l with
  | nil => simp [splitLast]
  | cons a as ih =>
    rw [splitLast]
    cases hs : splitLast p as with
    | none =>
      by_cases ha : p a
      · simp [ha]
      · simpa [ha] using ih.mp hs
    | some parts =>
      rw [hs] at ih
      simpa using fun _ => by simpa using ih

/-- What the parts of a cut at the last separator are. -/
theorem splitLast_eq_some (h : splitLast p l = some (before, sep, after)) :
    l = before ++ sep :: after ∧ p sep = true ∧ ∀ a ∈ after, p a = false := by
  induction l generalizing before with
  | nil => cases h
  | cons a as ih =>
    rw [splitLast] at h
    cases hs : splitLast p as with
    | none =>
      rw [hs] at h
      by_cases ha : p a
      · simp only [ha, if_true] at h
        cases h
        exact ⟨rfl, ha, splitLast_eq_none_iff.mp hs⟩
      · simp [ha] at h
    | some parts =>
      obtain ⟨before', sep', after'⟩ := parts
      rw [hs] at h
      cases h
      obtain ⟨rfl, hsep, hafter⟩ := ih hs
      exact ⟨rfl, hsep, hafter⟩

/-- The parts of a cut at the last separator are found again. -/
theorem splitLast_append_cons (hsep : p sep = true) (ha : ∀ a ∈ after, p a = false) :
    splitLast p (before ++ sep :: after) = some (before, sep, after) := by
  induction before with
  | nil => simp [splitLast, splitLast_eq_none_iff.mpr ha, hsep]
  | cons b bs ih => rw [List.cons_append, splitLast, ih]

end HttpWire
