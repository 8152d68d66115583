import HttpWire.Field.Name
import HttpWire.Proofs.Text.Case
import HttpWire.Version.Basic

/-!
# The characters of tokens

What tokens are made of, as far as it keeps them apart from what stands around them: a token and a
protocol token that is accepted are visible ASCII, so neither a space nor an end of a line occurs in
them.  A token in capitals is a token.
-/

namespace HttpWire

/-! ### Characters of tokens -/

theorem toNat_lt_of_isTokenChar {c : Char} (h : isTokenChar c = true) : c.toNat < 0x80 := by
  rw [isTokenChar, Bool.or_eq_true] at h
  rcases h with h | h
  · rw [Text.isAlphanum_iff, Text.isUpper_iff, Text.isLower_iff, Text.isDigit_iff] at h
    omega
  · rw [List.contains_iff_mem] at h
    have hsmall : ("!#$%&'*+-.^_`|~".toList.all fun d => d.toNat < 0x80) = true := by decide
    exact of_decide_eq_true (List.all_eq_true.mp hsmall c h)

theorem all_of_isToken {t : Text} (h : isToken t = true) : ∀ c ∈ t, isTokenChar c = true := by
  rw [isToken, Bool.and_eq_true] at h
  exact List.all_eq_true.mp h.2

theorem isTokenChar_toUpper {c : Char} (h : isTokenChar c = true) :
    isTokenChar c.toUpper = true := by
  by_cases hc : 97 ≤ c.toNat ∧ c.toNat ≤ 122
  · have hupper : c.toUpper.isUpper = true := by
      rw [Text.isUpper_iff, Text.toNat_toUpper, if_pos hc]
      omega
    rw [isTokenChar, Text.isAlphanum_iff.mpr (.inl hupper), Bool.true_or]
  · have hsame : c.toUpper = c := by
      rw [← Char.toNat_inj, Text.toNat_toUpper, if_neg hc]
    rwa [hsame]

theorem isToken_upper {t : Text} (h : isToken t = true) : isToken (Text.upper t) = true := by
  rw [isToken, Bool.and_eq_true, Bool.not_eq_true'] at h ⊢
  refine ⟨List.isEmpty_map.trans h.1, ?_⟩
  rw [Text.upper, List.all_map, List.all_eq_true]
  intro c hc
  exact isTokenChar_toUpper (List.all_eq_true.mp h.2 c hc)

/-! ### Between spaces -/

/-- A character that stands in no separator of a request line. -/
def isVisible (c : Char) : Prop :=
  c.toNat < 0x80 ∧ c ≠ '\r' ∧ c ≠ '\n' ∧ c ≠ ' '

theorem isVisible_of_isTokenChar {c : Char} (h : isTokenChar c = true) : isVisible c := by
  refine ⟨toNat_lt_of_isTokenChar h, ?_, ?_, ?_⟩ <;>
  · rintro rfl
    exact absurd h (by decide)

theorem isVisible_of_isDigit {c : Char} (h : Text.isDigit c = true) : isVisible c := by
  rw [Text.isDigit_iff] at h
  refine ⟨by omega, ?_, ?_, ?_⟩ <;>
  · rintro rfl
    exact absurd h (by decide)

namespace Version

theorem isVisible_of_number? {digits : Text} {n : UInt16} (h : number? digits = some n) :
    ∀ c ∈ digits, isVisible c := by
  rw [number?] at h
  cases ht : Text.toNat? digits with
  | none => simp [ht] at h
  | some n =>
    intro c hc
    exact isVisible_of_isDigit ((Text.isDigit_of_toNat? ht).2 c hc)

theorem isVisible_of_ofNumbers? {numbers : Text} {v : Version} (h : ofNumbers? numbers = some v) :
    ∀ c ∈ numbers, isVisible c := by
  rw [ofNumbers?] at h
  cases hs : splitFirst (· == '.') numbers with
  | none =>
    rw [hs] at h
    obtain ⟨n, hn, -⟩ := Option.map_eq_some_iff.mp h
    exact isVisible_of_number? hn
  | some parts =>
    obtain ⟨before, sep, after⟩ := parts
    obtain ⟨rfl, hsep, -⟩ := splitFirst_eq_some_iff.mp hs
    obtain rfl : sep = '.' := by simpa using hsep
    rw [hs] at h
    cases hb : number? before with
    | none => simp [hb] at h
    | some major =>
      cases ha : number? after with
      | none => simp [hb, ha] at h
      | some minor =>
        intro c hc
        rcases List.mem_append.mp hc with hc | hc
        · exact isVisible_of_number? hb c hc
        · rcases List.mem_cons.mp hc with rfl | hc
          · exact isVisible_of_isTokenChar (by decide)
          · exact isVisible_of_number? ha c hc

/-- A token that is accepted has neither spaces nor ends of lines. -/
theorem isVisible_of_ofToken {token : Text} {v : Version} (h : ofToken token = .ok v) :
    ∀ c ∈ token, isVisible c := by
  rw [ofToken] at h
  split at h
  · next hempty =>
    rw [List.isEmpty_iff] at hempty
    simp [hempty]
  · split at h
    · next hname =>
      intro c hc
      rw [← List.take_append_drop 5 token] at hc
      rcases List.mem_append.mp hc with hc | hc
      · -- The letters in front of the slash are those of the name, in any case.
        rw [Text.sameIgnoringCase, beq_iff_eq] at hname
        have hmem : c.toLower ∈ Text.lower "HTTP/".toList := by
          rw [← hname]
          exact List.mem_map_of_mem hc
        have hall : ((Text.lower "HTTP/".toList).all fun d =>
            0x2F ≤ d.toNat ∧ d.toNat < 0x80) = true := by decide
        have hbounds : 0x2F ≤ c.toLower.toNat ∧ c.toLower.toNat < 0x80 :=
          of_decide_eq_true (List.all_eq_true.mp hall _ hmem)
        rw [Text.toNat_toLower] at hbounds
        have hlow : 0x2F ≤ c.toNat := by
          split at hbounds <;> omega
        refine ⟨by split at hbounds <;> omega, ?_, ?_, ?_⟩ <;>
        · rintro rfl
          exact absurd hlow (by decide)
      · cases hn : ofNumbers? (token.drop 5) with
        | none => simp [hn] at h
        | some w => exact isVisible_of_ofNumbers? hn c hc
    · cases h

end Version

end HttpWire
