import Mathlib.Data.List.Induction
import HttpWire.Proofs.Text.Case
import HttpWire.Text.Blank

/-!
# Hexadecimal numbers

A number below sixteen is written as one character, a letter in either case (`IsHexDigit`).  These
characters are read as the numbers that they write, and no others are read at all
(`hexValue?_eq_some_iff`).  Everything is a comparison of code points: the digits of a number are
where `toNat_digitChar` says, and the capitals lie 32 below.

A `HexNumeral` is a text of such digits with its value.  `hexNumberFrom?` goes through the digits as
a reader does, from the first to the last, and comes to the same value (`hexNumeral_iff`).
-/

namespace HttpWire

namespace Text

variable {c : Char} {d start n : Nat} {digits : Text}

/-! ### Digits -/

/-- A character writes a number below sixteen, a letter in either case. -/
def IsHexDigit (c : Char) (d : Nat) : Prop :=
  d < 16 ∧ (c = Nat.digitChar d ∨ c = (Nat.digitChar d).toUpper)

theorem toNat_digitChar (hd : d < 16) :
    (Nat.digitChar d).toNat = if d < 10 then 48 + d else 87 + d := by
  revert d
  decide

/-- The value of a digit by its code point. -/
theorem hexValue?_eq (c : Char) :
    hexValue? c =
      if 48 ≤ c.toNat ∧ c.toNat ≤ 57 then some (c.toNat - 48)
      else if 97 ≤ c.toNat ∧ c.toNat ≤ 102 then some (c.toNat - 97 + 10)
      else if 65 ≤ c.toNat ∧ c.toNat ≤ 70 then some (c.toNat - 65 + 10)
      else none :=
  rfl

theorem isHexDigit_iff :
    IsHexDigit c d ↔ 48 ≤ c.toNat ∧ c.toNat ≤ 57 ∧ d = c.toNat - 48 ∨
      97 ≤ c.toNat ∧ c.toNat ≤ 102 ∧ d = c.toNat - 87 ∨
        65 ≤ c.toNat ∧ c.toNat ≤ 70 ∧ d = c.toNat - 55 := by
  rw [IsHexDigit]
  by_cases hd : d < 16
  · rw [← Char.toNat_inj, ← Char.toNat_inj, toNat_toUpper, toNat_digitChar hd]
    split <;> split <;> omega
  · omega

/-- **The characters that are read as hexadecimal digits are those that write one.** -/
theorem hexValue?_eq_some_iff : hexValue? c = some d ↔ IsHexDigit c d := by
  rw [isHexDigit_iff, hexValue?_eq]
  split_ifs
  all_goals
    simp only [Option.some.injEq, false_iff]
    omega

/-- A hexadecimal digit is none of the characters that end a number or a line. -/
theorem hexDigit_ne (h : hexValue? c = some d) :
    c.toNat < 0x80 ∧ c ≠ '\r' ∧ c ≠ '\n' ∧ c ≠ ';' ∧ isSpaceOrTab c = false := by
  rw [hexValue?_eq_some_iff, isHexDigit_iff] at h
  have hne {e : Char} (he : e.toNat < 48 ∨ e.toNat = 59) : c ≠ e := by
    rw [Ne, ← Char.toNat_inj]
    omega
  refine ⟨by omega, hne (by decide), hne (by decide), hne (by decide), ?_⟩
  rw [isSpaceOrTab, Bool.or_eq_false_iff, beq_eq_false_iff_ne, beq_eq_false_iff_ne]
  exact ⟨hne (by decide), hne (by decide)⟩

/-! ### Digits read one by one -/

/-- The number that hexadecimal digits of either case write behind a number. -/
def hexNumberFrom? (start : Nat) (digits : Text) : Option Nat :=
  digits.foldlM (fun n c => (hexValue? c).map (n * 16 + ·)) start

theorem hexNumberFrom?_cons_iff :
    hexNumberFrom? start (c :: digits) = some n ↔
      ∃ d, hexValue? c = some d ∧ hexNumberFrom? (start * 16 + d) digits = some n := by
  rw [hexNumberFrom?, List.foldlM_cons]
  constructor
  · intro h
    obtain ⟨next, hnext, hrest⟩ := Option.bind_eq_some_iff.mp h
    obtain ⟨d, hd, rfl⟩ := Option.map_eq_some_iff.mp hnext
    exact ⟨d, hd, hrest⟩
  · rintro ⟨d, hd, hrest⟩
    rw [hd]
    exact hrest

theorem hexNumberFrom?_concat_iff :
    hexNumberFrom? start (digits ++ [c]) = some n ↔
      ∃ m, hexNumberFrom? start digits = some m ∧ ∃ d, hexValue? c = some d ∧ m * 16 + d = n := by
  rw [hexNumberFrom?, List.foldlM_append, Option.bind_eq_bind, Option.bind_eq_some_iff]
  refine exists_congr fun m => and_congr_right fun hm => ?_
  rw [List.foldlM_cons, Option.bind_eq_bind, Option.bind_eq_some_iff]
  simp [Option.map_eq_some_iff]

/-- More digits make no number smaller. -/
theorem le_of_hexNumberFrom? (h : hexNumberFrom? start digits = some n) : start ≤ n := by
  induction digits generalizing start with
  | nil =>
    obtain rfl := Option.some.inj h
    exact Nat.le_refl _
  | cons c digits ih =>
    obtain ⟨d, -, hrest⟩ := hexNumberFrom?_cons_iff.mp h
    have := ih hrest
    omega

theorem exists_hexValue?_of_mem (hc : c ∈ digits) (h : hexNumberFrom? start digits = some n) :
    ∃ d, hexValue? c = some d := by
  induction digits generalizing start with
  | nil => cases hc
  | cons b digits ih =>
    obtain ⟨d, hd, hrest⟩ := hexNumberFrom?_cons_iff.mp h
    rcases List.mem_cons.mp hc with rfl | hc
    · exact ⟨d, hd⟩
    · exact ih hc hrest

/-- A text begins with digits as far as there are any. -/
theorem exists_digits (start : Nat) (t : Text) :
    ∃ digits rest n, t = digits ++ rest ∧ hexNumberFrom? start digits = some n ∧
      ∀ c ∈ rest.head?, hexValue? c = none := by
  induction t generalizing start with
  | nil => exact ⟨[], [], start, rfl, rfl, by simp⟩
  | cons c t ih =>
    cases hc : hexValue? c with
    | none => exact ⟨[], c :: t, start, rfl, rfl, by simpa using hc⟩
    | some d =>
      obtain ⟨digits, rest, n, rfl, hn, hrest⟩ := ih (start * 16 + d)
      exact ⟨c :: digits, rest, n, rfl, hexNumberFrom?_cons_iff.mpr ⟨d, hc, hn⟩, hrest⟩

end Text

/-! ### Numerals -/

/-- A text writes a number in hexadecimal: digits of either case, at least one, in their order.  Any
of them may be zeros. -/
inductive HexNumeral : Text → Nat → Prop
  | digit {c : Char} {d : Nat} (hc : Text.IsHexDigit c d) : HexNumeral [c] d
  | more {t : Text} {c : Char} {n d : Nat} (h : HexNumeral t n) (hc : Text.IsHexDigit c d) :
    HexNumeral (t ++ [c]) (n * 16 + d)

/-- **The numerals are the texts that are read, digit by digit, as their values.** -/
theorem hexNumeral_iff {t : Text} {n : Nat} :
    HexNumeral t n ↔ t ≠ [] ∧ Text.hexNumberFrom? 0 t = some n := by
  constructor
  · intro h
    induction h with
    | digit hc =>
      refine ⟨List.cons_ne_nil _ _, ?_⟩
      apply Text.hexNumberFrom?_cons_iff.mpr
      exact ⟨_, Text.hexValue?_eq_some_iff.mpr hc, congrArg some (by omega)⟩
    | more h hc ih =>
      refine ⟨by simp, Text.hexNumberFrom?_concat_iff.mpr ?_⟩
      exact ⟨_, ih.2, _, Text.hexValue?_eq_some_iff.mpr hc, rfl⟩
  · rintro ⟨hne, hn⟩
    -- By induction on the digits from the last to the first, as the number is built.
    induction t using List.reverseRecOn generalizing n with
    | nil => exact absurd rfl hne
    | append_singleton t c ih =>
      obtain ⟨m, hm, d, hd, rfl⟩ := Text.hexNumberFrom?_concat_iff.mp hn
      have hc := Text.hexValue?_eq_some_iff.mp hd
      by_cases ht : t = []
      · subst ht
        obtain rfl : 0 = m := Option.some.inj hm
        simpa using HexNumeral.digit hc
      · exact .more (ih ht hm) hc

end HttpWire
