import HttpWire.Proofs.Text.Split

/-!
# Laws of letter case

Making a letter small or large moves its code point by 32 and leaves every other character alone.
So no character that is not a letter is made or lost: the digits and the separators of a text are
those of its small-letter form (`splitFirst_lower`), and a token stays a token.
-/

namespace HttpWire.Text

variable {t : Text} {c : Char}

/-! ### Characters -/

theorem toNat_toLower (c : Char) :
    c.toLower.toNat = if 65 ≤ c.toNat ∧ c.toNat ≤ 90 then c.toNat + 32 else c.toNat := by
  have hlow : 'A'.val.toNat = 65 := rfl
  have hhigh : 'Z'.val.toNat = 90 := rfl
  have hstep : ('a'.val - 'A'.val).toNat = 32 := by decide
  unfold Char.toLower
  split
  · next h =>
    rw [ge_iff_le, UInt32.le_iff_toNat_le, UInt32.le_iff_toNat_le, hlow, hhigh, Char.toNat_val] at h
    rw [if_pos h, Char.toNat_mk, UInt32.toNat_add, hstep, Char.toNat_val]
    omega
  · next h =>
    rw [ge_iff_le, UInt32.le_iff_toNat_le, UInt32.le_iff_toNat_le, hlow, hhigh, Char.toNat_val] at h
    rw [if_neg h]

theorem toNat_toUpper (c : Char) :
    c.toUpper.toNat = if 97 ≤ c.toNat ∧ c.toNat ≤ 122 then c.toNat - 32 else c.toNat := by
  have hlow : 'a'.val.toNat = 97 := rfl
  have hhigh : 'z'.val.toNat = 122 := rfl
  have hstep : ('A'.val - 'a'.val).toNat = 2 ^ 32 - 32 := by decide
  unfold Char.toUpper
  split
  · next h =>
    rw [UInt32.le_iff_toNat_le, UInt32.le_iff_toNat_le, hlow, hhigh, Char.toNat_val] at h
    rw [if_pos h, Char.toNat_mk, UInt32.toNat_add, hstep, Char.toNat_val]
    omega
  · next h =>
    rw [UInt32.le_iff_toNat_le, UInt32.le_iff_toNat_le, hlow, hhigh, Char.toNat_val] at h
    rw [if_neg h]

/-- What is no letter is not made by making letters small. -/
theorem toLower_eq_iff {d : Char} (hd : d.toNat < 65) : c.toLower = d ↔ c = d := by
  rw [← Char.toNat_inj, ← Char.toNat_inj, toNat_toLower]
  split <;> omega

/-- A small letter is made of itself and of the capital. -/
theorem toLower_eq_letter_iff {d : Char} (hd : 97 ≤ d.toNat ∧ d.toNat ≤ 122) :
    c.toLower = d ↔ c = d.toUpper ∨ c = d := by
  rw [← Char.toNat_inj, ← Char.toNat_inj, ← Char.toNat_inj, toNat_toLower, toNat_toUpper, if_pos hd]
  split <;> omega

theorem toLower_toLower (c : Char) : c.toLower.toLower = c.toLower := by
  rw [← Char.toNat_inj, toNat_toLower c.toLower, if_neg]
  rw [toNat_toLower]
  split <;> omega

theorem isDigit_iff : isDigit c = true ↔ 48 ≤ c.toNat ∧ c.toNat ≤ 57 :=
  Char.isDigit_iff_toNat

theorem isUpper_iff : c.isUpper = true ↔ 65 ≤ c.toNat ∧ c.toNat ≤ 90 := by
  show decide ('A'.val ≤ c.val ∧ c.val ≤ 'Z'.val) = true ↔ _
  rw [decide_eq_true_eq, UInt32.le_iff_toNat_le, UInt32.le_iff_toNat_le]
  rfl

theorem isLower_iff : c.isLower = true ↔ 97 ≤ c.toNat ∧ c.toNat ≤ 122 := by
  show (decide ('a'.val ≤ c.val) && decide (c.val ≤ 'z'.val)) = true ↔ _
  rw [Bool.and_eq_true, decide_eq_true_eq, decide_eq_true_eq, UInt32.le_iff_toNat_le,
    UInt32.le_iff_toNat_le]
  rfl

theorem isAlphanum_iff :
    c.isAlphanum = true ↔ c.isUpper = true ∨ c.isLower = true ∨ isDigit c = true := by
  show (c.isUpper || c.isLower || c.isDigit) = true ↔ _
  rw [Bool.or_eq_true, Bool.or_eq_true, or_assoc]
  rfl

theorem isDigit_toLower (c : Char) : isDigit c.toLower = isDigit c := by
  rw [Bool.eq_iff_iff, isDigit_iff, isDigit_iff, toNat_toLower]
  split <;> omega

theorem toLower_of_isDigit (h : isDigit c = true) : c.toLower = c := by
  rw [isDigit_iff] at h
  rw [← Char.toNat_inj, toNat_toLower, if_neg (by omega)]

/-! ### Texts -/

theorem lower_lower (t : Text) : lower (lower t) = lower t := by
  rw [lower, lower, List.map_map]
  exact List.map_congr_left fun c _ => toLower_toLower c

/-- A number is written with digits, at least one. -/
theorem isDigit_of_toNat? {n : Nat} (h : toNat? t = some n) :
    t ≠ [] ∧ ∀ c ∈ t, isDigit c = true := by
  rw [toNat?] at h
  split at h
  · cases h
  · next hcond =>
    rw [Bool.or_eq_true, not_or, Bool.not_eq_true', Bool.not_eq_false, List.isEmpty_iff,
      List.all_eq_true] at hcond
    exact hcond

/-- A number is written without letters. -/
theorem toNat?_lower (t : Text) : toNat? (lower t) = toNat? t := by
  have hall : (lower t).all isDigit = t.all isDigit := by
    rw [lower, List.all_map]
    exact congrArg t.all (funext isDigit_toLower)
  have hempty : (lower t).isEmpty = t.isEmpty := List.isEmpty_map
  simp only [toNat?, hall, hempty]
  split
  · rfl
  · next h =>
    rw [Bool.or_eq_true, not_or, Bool.not_eq_true', Bool.not_eq_false, List.all_eq_true] at h
    -- Digits have no small form, so a text of digits stays as it is.
    have hsame : lower t = t :=
      (List.map_congr_left fun c hc => toLower_of_isDigit (h.2 c hc)).trans (List.map_id _)
    rw [hsame]

/-- A separator that is no letter is found at the same place in the small-letter form. -/
theorem splitFirst_lower {sep : Char} (hsep : sep.toNat < 65) (t : Text) :
    splitFirst (· == sep) (lower t) =
      (splitFirst (· == sep) t).map fun (before, s, after) => (lower before, s, lower after) := by
  induction t with
  | nil => rfl
  | cons c t ih =>
    rw [show lower (c :: t) = c.toLower :: lower t from rfl, splitFirst, splitFirst, ih]
    by_cases hc : c = sep
    · have hc' : c.toLower = sep := (toLower_eq_iff hsep).mpr hc
      rw [if_pos (by simp [hc']), if_pos (by simp [hc]), hc', hc]
      rfl
    · have hc' : c.toLower ≠ sep := fun h => hc ((toLower_eq_iff hsep).mp h)
      rw [if_neg (by simp [hc']), if_neg (by simp [hc]), Option.map_map, Option.map_map]
      rfl

end HttpWire.Text
