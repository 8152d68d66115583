import Mathlib.Data.List.Induction
import HttpWire.Proofs.Text.Case
import HttpWire.Version.Basic

/-!
# The form of protocol tokens

`Version.Denotes` is the form of the tokens that name a version: nothing at all, or the name of the
protocol with one number or with two numbers and a dot between.  The parser accepts the tokens of
this form, each as the version that it names, and refuses all others as they are
(`Version.ofToken_classifies`).

The numbers are `Numeral`s: ASCII digits, at least one, with a value.  Their bound is that of the
numbers of a version.
-/

namespace HttpWire

/-! ### Numerals -/

/-- A text writes a number in decimal, the digits in their order.  Any of them may be zeros. -/
inductive Numeral : Text → Nat → Prop
  | digit {d : Nat} (hd : d < 10) : Numeral [Nat.digitChar d] d
  | more {t : Text} {n d : Nat} (h : Numeral t n) (hd : d < 10) :
    Numeral (t ++ [Nat.digitChar d]) (n * 10 + d)

namespace Text

variable {t : Text} {n : Nat} {c : Char}

/-- A digit is the character of its value. -/
theorem isDigit_iff_digitChar : isDigit c = true ↔ ∃ d < 10, c = Nat.digitChar d := by
  constructor
  · intro h
    rw [isDigit_iff] at h
    have hd : c.toNat - 48 < 10 := by omega
    refine ⟨c.toNat - 48, hd, ?_⟩
    rw [← Char.toNat_inj, Nat.toNat_digitChar_of_lt_ten hd]
    omega
  · rintro ⟨d, hd, rfl⟩
    rw [isDigit_iff, Nat.toNat_digitChar_of_lt_ten hd]
    omega

theorem toNat?_eq_some_iff_digits :
    toNat? t = some n ↔ t ≠ [] ∧ (∀ c ∈ t, isDigit c = true) ∧ Nat.ofDigitChars 10 t 0 = n := by
  rw [toNat?]
  cases t with
  | nil => simp
  | cons c t => simp

/-- One more digit makes ten times the number and its value. -/
theorem ofDigitChars_concat {d : Nat} (hd : d < 10) (t : Text) :
    Nat.ofDigitChars 10 (t ++ [Nat.digitChar d]) 0 = Nat.ofDigitChars 10 t 0 * 10 + d := by
  have hvalue : (Nat.digitChar d).toNat - '0'.toNat = d := by
    rw [Nat.toNat_digitChar_of_lt_ten hd]
    show 48 + d - 48 = d
    omega
  rw [Nat.ofDigitChars_append, Nat.ofDigitChars_cons, hvalue, Nat.mul_comm]
  rfl

/-- **The texts that are read as numbers are the numerals.** -/
theorem toNat?_eq_some_iff : toNat? t = some n ↔ Numeral t n := by
  rw [toNat?_eq_some_iff_digits]
  constructor
  · rintro ⟨hne, hdigits, rfl⟩
    -- By induction on the digits from the last to the first, as the number is built.
    induction t using List.reverseRecOn with
    | nil => exact absurd rfl hne
    | append_singleton t c ih =>
      obtain ⟨d, hd, rfl⟩ := isDigit_iff_digitChar.mp (hdigits c (by simp))
      rw [ofDigitChars_concat hd]
      by_cases ht : t = []
      · rw [ht]
        have hone : Numeral [Nat.digitChar d] d := .digit hd
        simpa [Nat.ofDigitChars] using hone
      · exact .more (ih ht fun b hb => hdigits b (List.mem_append_left _ hb)) hd
  · intro h
    induction h with
    | @digit d hd =>
      refine ⟨List.cons_ne_nil _ _, ?_, ?_⟩
      · rw [List.forall_mem_singleton]
        exact isDigit_iff_digitChar.mpr ⟨d, hd, rfl⟩
      · simpa [Nat.ofDigitChars] using ofDigitChars_concat hd []
    | @more t n d h hd ih =>
      obtain ⟨hne, hdigits, hvalue⟩ := ih
      refine ⟨by simp, ?_, by rw [ofDigitChars_concat hd, hvalue]⟩
      intro c hc
      rcases List.mem_append.mp hc with hc | hc
      · exact hdigits c hc
      · obtain rfl := List.mem_singleton.mp hc
        exact isDigit_iff_digitChar.mpr ⟨d, hd, rfl⟩

/-- What a number is written as is read as that number. -/
theorem toNat?_ofNat (n : Nat) : toNat? (ofNat n) = some n := by
  rw [toNat?_eq_some_iff_digits, ofNat]
  refine ⟨List.ne_nil_of_length_pos Nat.length_toDigits_pos, ?_, ?_⟩
  · intro c hc
    exact Nat.isDigit_of_mem_toDigits (by decide) (by decide) hc
  · exact Nat.ofDigitChars_toDigits (by decide) (by decide)

end Text

namespace Numeral

variable {t : Text} {n : Nat}

theorem isDigit (h : Numeral t n) : ∀ c ∈ t, Text.isDigit c = true :=
  (Text.isDigit_of_toNat? (Text.toNat?_eq_some_iff.mpr h)).2

/-- What a number is written as. -/
theorem ofNat (n : Nat) : Numeral (Text.ofNat n) n :=
  Text.toNat?_eq_some_iff.mp (Text.toNat?_ofNat n)

theorem dot_not_mem (h : Numeral t n) : '.' ∉ t :=
  fun hmem => absurd (h.isDigit _ hmem) (by decide)

end Numeral

/-! ### Tokens -/

/-- The name of the protocol and the slash behind it, each letter large or small. -/
inductive ProtocolName : Text → Prop
  | intro {h t t' p : Char} (hh : h = 'H' ∨ h = 'h') (ht : t = 'T' ∨ t = 't')
    (ht' : t' = 'T' ∨ t' = 't') (hp : p = 'P' ∨ p = 'p') : ProtocolName [h, t, t', p, '/']

namespace Version

/-- A token names a version. -/
inductive Denotes : Text → Version → Prop
  /-- Without a token it is the version that had none. -/
  | nothing : Denotes [] ⟨0, 9⟩
  | major {name digits : Text} {major : UInt16} (hname : ProtocolName name)
    (hmajor : Numeral digits major.toNat) : Denotes (name ++ digits) ⟨major, 0⟩
  | majorMinor {name digits digits' : Text} {major minor : UInt16} (hname : ProtocolName name)
    (hmajor : Numeral digits major.toNat) (hminor : Numeral digits' minor.toNat) :
    Denotes (name ++ digits ++ '.' :: digits') ⟨major, minor⟩

variable {t numbers token : Text} {v : Version}

/-- The name is compared without regard to the case of its letters. -/
theorem sameIgnoringCase_name_iff :
    Text.sameIgnoringCase t "HTTP/".toList = true ↔ ProtocolName t := by
  have hname : Text.lower "HTTP/".toList = ['h', 't', 't', 'p', '/'] := by decide
  rw [Text.sameIgnoringCase, hname, beq_iff_eq, Text.lower]
  constructor
  · intro h
    simp only [List.map_eq_cons_iff, List.map_eq_nil_iff] at h
    obtain ⟨a, _, rfl, ha, b, _, rfl, hb, c, _, rfl, hc, d, _, rfl, hd, e, _, rfl, he, rfl⟩ := h
    obtain rfl : e = '/' := (Text.toLower_eq_iff (by decide)).mp he
    exact .intro ((Text.toLower_eq_letter_iff (by decide)).mp ha)
      ((Text.toLower_eq_letter_iff (by decide)).mp hb)
      ((Text.toLower_eq_letter_iff (by decide)).mp hc)
      ((Text.toLower_eq_letter_iff (by decide)).mp hd)
  · rintro ⟨hh, ht, ht', hp⟩
    rcases hh with rfl | rfl <;> rcases ht with rfl | rfl <;> rcases ht' with rfl | rfl <;>
      rcases hp with rfl | rfl <;> decide

/-- The numbers of a version are the numerals up to their bound. -/
theorem number?_eq_some_iff {n : UInt16} : number? t = some n ↔ Numeral t n.toNat := by
  rw [number?, ← Text.toNat?_eq_some_iff]
  cases Text.toNat? t with
  | none => simp
  | some k =>
    simp only [Option.some.injEq]
    have hbound : n.toNat < 65536 := n.toNat_lt
    by_cases hk : k < 65536
    · rw [if_pos hk, Option.some.injEq, ← UInt16.toNat_inj, UInt16.toNat_ofNat_of_lt' hk]
    · rw [if_neg hk]
      constructor
      · intro h
        cases h
      · omega

/-- Behind the name stands one number, or two with a dot between. -/
theorem ofNumbers?_eq_some_iff :
    ofNumbers? numbers = some v ↔
      Numeral numbers v.major.toNat ∧ v.minor = 0 ∨
        ∃ before after, numbers = before ++ '.' :: after ∧ Numeral before v.major.toNat ∧
          Numeral after v.minor.toNat := by
  obtain ⟨major, minor⟩ := v
  rw [ofNumbers?]
  constructor
  · intro h
    cases hs : splitFirst (· == '.') numbers with
    | none =>
      rw [hs] at h
      obtain ⟨n, hn, hv⟩ := Option.map_eq_some_iff.mp h
      cases hv
      exact .inl ⟨number?_eq_some_iff.mp hn, rfl⟩
    | some parts =>
      obtain ⟨before, sep, after⟩ := parts
      obtain ⟨rfl, hnumbers, -⟩ := splitFirst_beq_eq_some_iff.mp hs
      rw [hs] at h
      dsimp only at h
      split at h
      · next n m hn hm =>
        cases h
        exact .inr ⟨before, after, hnumbers, number?_eq_some_iff.mp hn,
          number?_eq_some_iff.mp hm⟩
      · cases h
  -- A numeral has no dot, so the numbers are cut where the form has its dot, or not at all.
  · rintro (⟨hmajor, hminor⟩ | ⟨before, after, rfl, hmajor, hminor⟩)
    · rw [splitFirst_beq_eq_none_iff.mpr hmajor.dot_not_mem]
      simp only at hminor
      simp [number?_eq_some_iff.mpr hmajor, hminor]
    · rw [splitFirst_beq_append_cons hmajor.dot_not_mem]
      simp [number?_eq_some_iff.mpr hmajor, number?_eq_some_iff.mpr hminor]

theorem denotes_nil_iff : Denotes [] v ↔ v = ⟨0, 9⟩ := by
  constructor
  · intro h
    generalize ht : ([] : Text) = t at h
    cases h with
    | nothing => rfl
    | major hname hmajor => cases hname; cases ht
    | majorMinor hname hmajor hminor => cases hname; cases ht
  · rintro rfl
    exact .nothing

/-- A token that is there names a version by its name and the numbers behind it. -/
theorem denotes_iff (hne : token ≠ []) :
    Denotes token v ↔ ProtocolName (token.take 5) ∧ ofNumbers? (token.drop 5) = some v := by
  have hcut {name rest : Text} (hname : ProtocolName name) :
      (name ++ rest).take 5 = name ∧ (name ++ rest).drop 5 = rest := by
    cases hname
    exact ⟨rfl, rfl⟩
  rw [ofNumbers?_eq_some_iff]
  constructor
  · intro h
    cases h with
    | nothing => exact absurd rfl hne
    | major hname hmajor =>
      obtain ⟨htake, hdrop⟩ := hcut hname
      rw [htake, hdrop]
      exact ⟨hname, .inl ⟨hmajor, rfl⟩⟩
    | majorMinor hname hmajor hminor =>
      rw [List.append_assoc]
      obtain ⟨htake, hdrop⟩ := hcut hname
      rw [htake, hdrop]
      exact ⟨hname, .inr ⟨_, _, rfl, hmajor, hminor⟩⟩
  · obtain ⟨major, minor⟩ := v
    rintro ⟨hname, hnumbers⟩
    rw [← List.take_append_drop 5 token]
    rcases hnumbers with ⟨hmajor, rfl⟩ | ⟨before, after, hdrop, hmajor, hminor⟩
    · exact .major hname hmajor
    · rw [hdrop, ← List.append_assoc]
      exact .majorMinor hname hmajor hminor

/-- What is accepted has the form, and what is refused is told as it is. -/
theorem ofToken_cases (token : Text) :
    (∃ v, ofToken token = .ok v ∧ Denotes token v) ∨
      ofToken token = .error ⟨token⟩ ∧ ∀ v, ¬ Denotes token v := by
  rw [ofToken]
  by_cases hempty : token = []
  · rw [hempty]
    exact .inl ⟨⟨0, 9⟩, rfl, .nothing⟩
  · rw [if_neg (by simpa using hempty)]
    simp only [denotes_iff hempty]
    by_cases hname : ProtocolName (token.take 5)
    · rw [if_pos (sameIgnoringCase_name_iff.mpr hname)]
      cases hn : ofNumbers? (token.drop 5) with
      | none => exact .inr ⟨rfl, fun v h => by cases h.2⟩
      | some v => exact .inl ⟨v, rfl, hname, rfl⟩
    · rw [if_neg fun h => hname (sameIgnoringCase_name_iff.mp h)]
      exact .inr ⟨rfl, fun v h => hname h.1⟩

/-- No token names two versions. -/
theorem Denotes.unique {w : Version} (h : Denotes token v) (h' : Denotes token w) : v = w := by
  by_cases hempty : token = []
  · rw [hempty, denotes_nil_iff] at h h'
    rw [h, h']
  · rw [denotes_iff hempty] at h h'
    exact Option.some.inj (h.2.symm.trans h'.2)

/-- **A token is accepted if and only if it has the form of one that names a version, and is then
that version.**  Any other is refused as it is.  What a version is shown as is a token that names
it, behind the name of the protocol. -/
theorem ofToken_classifies :
    (∀ token v, ofToken token = .ok v ↔ Denotes token v) ∧
      (∀ token e, ofToken token = .error e ↔ e = ⟨token⟩ ∧ ∀ v, ¬ Denotes token v) ∧
        ∀ v, ofToken ("HTTP/".toList ++ v.toText) = .ok v := by
  have haccepted (token : Text) (v : Version) : ofToken token = .ok v ↔ Denotes token v := by
    rcases ofToken_cases token with ⟨w, hok, hw⟩ | ⟨herror, hno⟩
    · rw [hok, Except.ok.injEq]
      exact ⟨fun h => h ▸ hw, hw.unique⟩
    · rw [herror]
      constructor
      · intro h
        cases h
      · intro h
        exact absurd h (hno v)
  refine ⟨haccepted, ?_, ?_⟩
  · intro token e
    rcases ofToken_cases token with ⟨w, hok, hw⟩ | ⟨herror, hno⟩
    · rw [hok]
      constructor
      · intro h
        cases h
      · rintro ⟨-, hno⟩
        exact absurd hw (hno w)
    · rw [herror, Except.error.injEq]
      exact ⟨fun h => ⟨h.symm, hno⟩, fun h => h.1.symm⟩
  · intro v
    rw [haccepted, toText, ← List.append_assoc]
    have hname : ProtocolName "HTTP/".toList :=
      .intro (.inl rfl) (.inl rfl) (.inl rfl) (.inl rfl)
    exact .majorMinor hname (.ofNat _) (.ofNat _)

/-- Zeros in front count for nothing, and a number above the bound or a second dot is refused. -/
example : ofToken "hTTp/00001.65535".toList = .ok ⟨1, 65535⟩ ∧
    ofToken "HTTP/65536".toList = .error ⟨"HTTP/65536".toList⟩ ∧
      ofToken "HTTP/1.1.1".toList = .error ⟨"HTTP/1.1.1".toList⟩ := by
  decide

end Version

end HttpWire
