import HttpWire.Field.Value
import HttpWire.Proofs.Text.Case
import HttpWire.Proofs.Text.Utf8
import HttpWire.Reading.Reader
import HttpWire.Text.Blank

/-!
# Laws of ASCII text

An ASCII text is written with one octet for each character, and octets in the ASCII range are those
of a text (`encode_of_octets`).  A line is read back from its octets in every character set that has
its characters (`answer_encode`).

The last section has what is taken off the ends of a text: white space around a trimmed text is
taken off again (`trim_surrounded`), and trimming a trimmed text takes off nothing
(`trim_trim`).
-/

namespace HttpWire

/-- A text of ASCII characters. -/
def Text.IsAscii (t : Text) : Prop :=
  ∀ c ∈ t, c.toNat < 0x80

namespace Utf8

variable {t u : Text} {c : Char}

/-! ### Octets -/

theorem encodeChar_of_ascii (hc : c.toNat < 0x80) : encodeChar c = [UInt8.ofNat c.toNat] := by
  simp only [encodeChar]
  rw [if_pos hc]

/-- An ASCII text has one octet for each character. -/
theorem encode_of_ascii (h : t.IsAscii) : encode t = t.map fun c => UInt8.ofNat c.toNat := by
  induction t with
  | nil => rfl
  | cons c t ih =>
    have hc : c.toNat < 0x80 := h c (List.mem_cons_self ..)
    have ht : Text.IsAscii t := fun d hd => h d (List.mem_cons_of_mem _ hd)
    rw [encode, List.flatMap_cons, encodeChar_of_ascii hc, ← encode, ih ht]
    rfl

theorem toNat_ofNat_of_ascii (hc : c.toNat < 0x80) : (UInt8.ofNat c.toNat).toNat = c.toNat :=
  UInt8.toNat_ofNat_of_lt' (Nat.lt_trans hc (by decide))

theorem decodeAscii?_encode (h : t.IsAscii) : decodeAscii? (encode t) = some t := by
  have hall : (encode t).all (· < 0x80) = true := by
    rw [encode_of_ascii h, List.all_map, List.all_eq_true]
    intro c hc
    show decide (UInt8.ofNat c.toNat < 0x80) = true
    rw [decide_eq_true_eq, UInt8.lt_iff_toNat_lt, toNat_ofNat_of_ascii (h c hc)]
    exact h c hc
  rw [decodeAscii?, if_pos hall, encode_of_ascii h, List.map_map, Option.some.injEq]
  conv => rhs; rw [← List.map_id t]
  refine List.map_congr_left ?_
  intro c hc
  show Char.ofNat (UInt8.ofNat c.toNat).toNat = c
  rw [toNat_ofNat_of_ascii (h c hc), Char.ofNat_toNat]

/-- Octets in the ASCII range are those of the text that they read as. -/
theorem encode_of_octets {line : Bytes} (h : ∀ b ∈ line, b < 0x80) :
    Text.IsAscii (line.map fun b => Char.ofNat b.toNat) ∧
      encode (line.map fun b => Char.ofNat b.toNat) = line := by
  have hchar {b : UInt8} (hb : b ∈ line) :
      b.toNat < 0x80 ∧ (Char.ofNat b.toNat).toNat = b.toNat := by
    have hlt : b.toNat < 0x80 := UInt8.lt_iff_toNat_lt.mp (h b hb)
    exact ⟨hlt, toNat_ofNat (.inl (by omega))⟩
  have hascii : Text.IsAscii (line.map fun b => Char.ofNat b.toNat) := by
    intro c hc
    obtain ⟨b, hb, rfl⟩ := List.mem_map.mp hc
    rw [(hchar hb).2]
    exact (hchar hb).1
  refine ⟨hascii, ?_⟩
  rw [encode_of_ascii hascii, List.map_map]
  conv => rhs; rw [← List.map_id line]
  apply List.map_congr_left
  intro b hb
  show UInt8.ofNat (Char.ofNat b.toNat).toNat = b
  rw [(hchar hb).2, UInt8.ofNat_toNat]

end Utf8

/-- A character set has all characters of a text. -/
def LineCharset.Admits (charset : LineCharset) (t : Text) : Prop :=
  charset = .ascii → t.IsAscii

/-- A line is read as its text in a character set that has all its characters. -/
theorem LineCharset.answer_encode {t : Text} {charset : LineCharset} (h : charset.Admits t) :
    charset.answer (Utf8.encode t) = .ok (some t) := by
  cases charset with
  | utf8 => rw [answer, decode, Utf8.decodeLossy_encode t]
  | ascii => rw [answer, decode, Utf8.decodeAscii?_encode (h rfl)]

/-! ### Ends of a text -/

namespace Text

variable {t a b : Text} {p : Char → Bool}

theorem isSpaceOrTab_iff {c : Char} : isSpaceOrTab c = true ↔ c = ' ' ∨ c = '\t' := by
  rw [isSpaceOrTab, Bool.or_eq_true, beq_iff_eq, beq_iff_eq]

theorem dropTrailing_append (hb : ∀ c ∈ b, p c = true) (t : Text) :
    dropTrailing p (t ++ b) = dropTrailing p t := by
  rw [dropTrailing, dropTrailing, List.reverse_append, List.dropWhile_append_of_pos]
  intro c hc
  exact hb c (List.mem_reverse.mp hc)

/-- Nothing is taken off a text that ends in something else. -/
theorem dropTrailing_eq_self {c : Char} (hc : p c = false) (t : Text) :
    dropTrailing p (t ++ [c]) = t ++ [c] := by
  rw [dropTrailing, List.reverse_append, List.reverse_singleton, List.singleton_append,
    List.dropWhile_cons_of_neg (by simp [hc]), List.reverse_cons, List.reverse_reverse]

/-- What is taken off the end of a text passes the test. -/
theorem exists_dropTrailing_append {p : Char → Bool} (t : Text) :
    ∃ b, t = dropTrailing p t ++ b ∧ ∀ c ∈ b, p c = true := by
  refine ⟨(t.reverse.takeWhile p).reverse, ?_, ?_⟩
  · rw [dropTrailing, ← List.reverse_append, List.takeWhile_append_dropWhile, List.reverse_reverse]
  · intro c hc
    exact List.all_eq_true.mp List.all_takeWhile c (List.mem_reverse.mp hc)

/-- Where something stays at the end, everything in front of it stays. -/
theorem dropTrailing_append_of_kept (hb : ∃ c ∈ b, p c = false) (t : Text) :
    dropTrailing p b ≠ [] ∧ dropTrailing p (t ++ b) = t ++ dropTrailing p b := by
  obtain ⟨c, hc, hstays⟩ := hb
  have hkept : dropTrailing p b ≠ [] := by
    intro hnil
    obtain ⟨taken, htaken, hall⟩ := exists_dropTrailing_append (p := p) b
    rw [hnil, List.nil_append] at htaken
    have htakes : p c = true := hall c (htaken ▸ hc)
    simp [hstays] at htakes
  refine ⟨hkept, ?_⟩
  have hnonempty : ¬ (b.reverse.dropWhile p).isEmpty = true := by
    simpa [dropTrailing] using hkept
  rw [dropTrailing, List.reverse_append, List.dropWhile_append, if_neg hnonempty,
    List.reverse_append, List.reverse_reverse, dropTrailing]

theorem trim_append (hb : ∀ c ∈ b, isBlank c = true) (t : Text) : trim (t ++ b) = trim t := by
  rw [trim, trim, List.dropWhile_append]
  split
  · next h =>
    rw [List.isEmpty_iff] at h
    have hdrop : b.dropWhile isBlank = [] := by
      rw [← List.append_nil b, List.dropWhile_append_of_pos hb]
      rfl
    rw [h, hdrop]
  · exact dropTrailing_append hb _

theorem append_trim (ha : ∀ c ∈ a, isBlank c = true) (t : Text) : trim (a ++ t) = trim t := by
  rw [trim, trim, List.dropWhile_append_of_pos ha]

/-- A trimmed text stays as it is when it is trimmed again. -/
theorem trim_trim (t : Text) : trim (trim t) = trim t := by
  -- What is taken off either end is white space, so it might as well stay.
  obtain ⟨b, ht, hb⟩ := exists_dropTrailing_append (p := isBlank) (t.dropWhile isBlank)
  have ha : ∀ c ∈ t.takeWhile isBlank, isBlank c = true :=
    fun c hc => List.all_eq_true.mp List.all_takeWhile c hc
  calc trim (trim t) = trim (trim t ++ b) := (trim_append hb _).symm
    _ = trim (t.dropWhile isBlank) := congrArg trim ht.symm
    _ = trim (t.takeWhile isBlank ++ t.dropWhile isBlank) := (append_trim ha _).symm
    _ = trim t := by rw [List.takeWhile_append_dropWhile]

/-- A trimmed text does not begin with white space. -/
theorem dropWhile_of_trim (h : trim t = t) : t.dropWhile isBlank = t := by
  obtain ⟨b, hb, -⟩ := exists_dropTrailing_append (p := isBlank) (t.dropWhile isBlank)
  rw [← trim, h] at hb
  have hlength : (t ++ b).length ≤ t.length := hb ▸ (List.dropWhile_sublist isBlank).length_le
  rw [List.length_append] at hlength
  rw [hb, List.eq_nil_of_length_eq_zero (by omega : b.length = 0), List.append_nil]

/-- A trimmed text has characters of the text only. -/
theorem mem_of_mem_trim {c : Char} (h : c ∈ trim t) : c ∈ t := by
  obtain ⟨b, hb, -⟩ := exists_dropTrailing_append (p := isBlank) (t.dropWhile isBlank)
  apply (List.dropWhile_sublist isBlank).mem
  rw [hb]
  exact List.mem_append_left b h

/-- A trimmed text does not end with white space. -/
theorem dropTrailing_of_trim (h : trim t = t) : dropTrailing isBlank t = t := by
  have hfront : dropTrailing isBlank (t.dropWhile isBlank) = t := h
  rwa [dropWhile_of_trim h] at hfront

/-- White space around a trimmed text is taken off again. -/
theorem trim_surrounded (ha : ∀ c ∈ a, isBlank c = true) (hb : ∀ c ∈ b, isBlank c = true)
    (ht : trim t = t) : trim (a ++ t ++ b) = t := by
  rw [trim_append hb, append_trim ha, ht]

/-- A text without white space at either end is trimmed. -/
theorem trim_eq_self_iff :
    trim t = t ↔ (∀ c ∈ t.head?, isBlank c = false) ∧ ∀ c ∈ t.getLast?, isBlank c = false := by
  constructor
  · intro h
    constructor
    · intro c hc
      have hfirst := List.head?_dropWhile_not isBlank t
      rw [dropWhile_of_trim h, hc] at hfirst
      exact hfirst
    · intro c hc
      have hlast := List.head?_dropWhile_not isBlank t.reverse
      have hsame : t.reverse.dropWhile isBlank = t.reverse :=
        List.reverse_eq_iff.mp (dropTrailing_of_trim h)
      rw [hsame, List.head?_reverse, hc] at hlast
      exact hlast
  · rintro ⟨hfirst, hlast⟩
    have hfront : t.dropWhile isBlank = t := by
      cases t with
      | nil => rfl
      | cons c t => exact List.dropWhile_cons_of_neg (by simp [hfirst c rfl])
    rw [trim, hfront]
    rcases List.eq_nil_or_concat t with rfl | ⟨front, c, rfl⟩
    · rfl
    · rw [List.concat_eq_append] at hlast ⊢
      exact dropTrailing_eq_self (hlast c List.getLast?_concat) front

/-- **A text is trimmed to what stands between the white space at its ends.** -/
theorem trim_eq_iff {word : Text} :
    trim t = word ↔ trim word = word ∧ ∃ a b, t = a ++ word ++ b ∧
      (∀ c ∈ a, isBlank c = true) ∧ ∀ c ∈ b, isBlank c = true := by
  constructor
  · rintro rfl
    obtain ⟨b, ht, hb⟩ := exists_dropTrailing_append (p := isBlank) (t.dropWhile isBlank)
    refine ⟨trim_trim t, t.takeWhile isBlank, b, ?_,
      fun c hc => List.all_eq_true.mp List.all_takeWhile c hc, hb⟩
    calc t = t.takeWhile isBlank ++ t.dropWhile isBlank := List.takeWhile_append_dropWhile.symm
      _ = t.takeWhile isBlank ++ (trim t ++ b) := congrArg _ ht
      _ = t.takeWhile isBlank ++ trim t ++ b := (List.append_assoc ..).symm
  · rintro ⟨hword, a, b, rfl, ha, hb⟩
    exact trim_surrounded ha hb hword

end Text

end HttpWire
