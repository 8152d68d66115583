import HttpWire.FormPairs
import HttpWire.Proofs.Text.Ascii
import HttpWire.Proofs.Text.Hexadecimal

/-!
# Form parameters, written and read

Pairs are read back from what is written for them, in the same order (`ofBytes_toText`).

A half is written octet by octet, and each octet is read back whatever stands behind it
(`decodeOctets_encodeOctet`): written as itself, as a plus sign, or as a percent sign with two
digits, where neither a plus nor a percent sign is ever written as itself.  A half has no separator
(`separator_not_mem_encodeHalf`), so the text is cut where it was put together, and the equals sign
of a pair keeps its piece from being empty even if both halves are.
-/

namespace HttpWire.FormPairs

variable {b : UInt8} {c : Char} {t : Text}

/-! ### What is written for an octet -/

/-- An octet that is written as itself is one of ASCII, and neither a plus nor a percent sign. -/
theorem octet_of_isPlain (h : isPlain (Char.ofNat b.toNat) = true) :
    b.toNat < 0x80 ∧ b ≠ 0x2B ∧ b ≠ 0x25 := by
  refine ⟨?_, ?_, ?_⟩
  · have hoctet : (Char.ofNat b.toNat).toNat = b.toNat :=
      Utf8.toNat_ofNat (.inl (by have := b.toNat_lt; omega))
    rw [isPlain, Bool.or_eq_true, Text.isAlphanum_iff, Text.isUpper_iff, Text.isLower_iff,
      Text.isDigit_iff, hoctet] at h
    rcases h with h | h
    · omega
    · have hmarks : "*-._".toList.all (·.toNat < 0x80) = true := by decide
      rw [List.all_eq_true] at hmarks
      rw [← hoctet]
      exact of_decide_eq_true (hmarks _ (List.contains_iff_mem.mp h))
  · rintro rfl
    exact absurd h (by decide)
  · rintro rfl
    exact absurd h (by decide)

/-- A digit of an octet is an ASCII character that is written as itself. -/
theorem hexDigit_spec {n : Nat} (hn : n < 16) :
    Text.IsHexDigit (hexDigit n) n ∧ (hexDigit n).toNat < 0x80 ∧ isPlain (hexDigit n) = true := by
  refine ⟨⟨hn, .inr rfl⟩, ?_⟩
  revert n
  decide

/-- What is written for octets has three kinds of characters. -/
theorem mem_encodeOctet (h : c ∈ encodeOctet b) : isPlain c = true ∨ c = '+' ∨ c = '%' := by
  have hb : b.toNat < 256 := b.toNat_lt
  simp only [encodeOctet] at h
  split at h
  · next hplain =>
    rw [List.mem_singleton.mp h]
    exact .inl hplain
  split at h
  · exact .inr (.inl (List.mem_singleton.mp h))
  · simp only [List.mem_cons, List.not_mem_nil, or_false] at h
    rcases h with rfl | rfl | rfl
    · exact .inr (.inr rfl)
    · exact .inl (hexDigit_spec (by omega)).2.2
    · exact .inl (hexDigit_spec (by omega)).2.2

/-! ### One octet, written and read -/

theorem decodeOctets_cons (h : b ≠ 0x25) (rest : Bytes) :
    decodeOctets (b :: rest) = plusToSpace b :: decodeOctets rest := by
  match rest with
  | [] => rfl
  | [_] => rfl
  | _ :: _ :: _ => rw [decodeOctets, if_neg h]

theorem decodeOctets_percent {high low octet : UInt8} (h : hexPair? high low = some octet)
    (rest : Bytes) : decodeOctets (0x25 :: high :: low :: rest) = octet :: decodeOctets rest := by
  rw [decodeOctets, if_pos rfl, h]

/-- The two digits of an octet are read as the octet. -/
theorem hexPair?_hexDigit (b : UInt8) :
    hexPair? (UInt8.ofNat (hexDigit (b.toNat / 16)).toNat)
      (UInt8.ofNat (hexDigit (b.toNat % 16)).toNat) = some b := by
  have hb : b.toNat < 256 := b.toNat_lt
  obtain ⟨hhigh, hhigh', -⟩ := hexDigit_spec (n := b.toNat / 16) (by omega)
  obtain ⟨hlow, hlow', -⟩ := hexDigit_spec (n := b.toNat % 16) (by omega)
  have hoctet : 16 * (b.toNat / 16) + b.toNat % 16 = b.toNat := by omega
  rw [hexPair?, Utf8.toNat_ofNat_of_ascii hhigh', Utf8.toNat_ofNat_of_ascii hlow',
    Char.ofNat_toNat, Char.ofNat_toNat, Text.hexValue?_eq_some_iff.mpr hhigh,
    Text.hexValue?_eq_some_iff.mpr hlow]
  simp only [hoctet, UInt8.ofNat_toNat]

/-- **An octet is read back from what is written for it**, whatever stands behind it. -/
theorem decodeOctets_encodeOctet (b : UInt8) (rest : Bytes) :
    decodeOctets (Utf8.encode (encodeOctet b) ++ rest) = b :: decodeOctets rest := by
  have hb : b.toNat < 256 := b.toNat_lt
  simp only [encodeOctet]
  by_cases hplain : isPlain (Char.ofNat b.toNat) = true
  · obtain ⟨hascii, hplus, hpercent⟩ := octet_of_isPlain hplain
    have hoctet : (Char.ofNat b.toNat).toNat = b.toNat := Utf8.toNat_ofNat (.inl (by omega))
    have hwritten : Utf8.encode [Char.ofNat b.toNat] = [b] := by
      rw [Utf8.encode, List.flatMap_singleton, Utf8.encodeChar_of_ascii (by omega), hoctet,
        UInt8.ofNat_toNat]
    rw [if_pos hplain, hwritten, List.singleton_append, decodeOctets_cons hpercent, plusToSpace,
      if_neg hplus]
  rw [if_neg hplain]
  by_cases hspace : b = 0x20
  · rw [if_pos hspace, hspace]
    show decodeOctets (0x2B :: rest) = _
    rw [decodeOctets_cons (by decide)]
    rfl
  · have hascii : Text.IsAscii ['%', hexDigit (b.toNat / 16), hexDigit (b.toNat % 16)] := by
      simp only [Text.IsAscii, List.forall_mem_cons]
      exact ⟨by decide, (hexDigit_spec (by omega)).2.1, (hexDigit_spec (by omega)).2.1,
        List.forall_mem_nil _⟩
    rw [if_neg hspace, Utf8.encode_of_ascii hascii]
    exact decodeOctets_percent (hexPair?_hexDigit b) rest

/-! ### Halves -/

/-- Octets are read back one by one. -/
theorem decodeOctets_encode (bs : Bytes) :
    decodeOctets (Utf8.encode (bs.flatMap encodeOctet)) = bs := by
  induction bs with
  | nil => rfl
  | cons b bs ih =>
    rw [List.flatMap_cons, Utf8.encode_append, decodeOctets_encodeOctet, ih]

/-- **A half is read back from what is written for it.** -/
theorem decodeHalf_encodeHalf (t : Text) : decodeHalf (Utf8.encode (encodeHalf t)) = t := by
  rw [decodeHalf, encodeHalf, decodeOctets_encode, Utf8.decodeLossy_encode]

/-- What is written for a half has no separator in it. -/
theorem separator_not_mem_encodeHalf (hc : c = '&' ∨ c = '=') (t : Text) :
    c ∉ encodeHalf t := by
  intro h
  obtain ⟨b, -, hb⟩ := List.mem_flatMap.mp h
  have hwritten := mem_encodeOctet hb
  revert hwritten
  rcases hc with rfl | rfl <;> decide

/-! ### Pairs -/

/-- A pair as it is written. -/
def pairText (pair : Text × Text) : Text :=
  encodeHalf pair.1 ++ '=' :: encodeHalf pair.2

theorem ampersand_not_mem_pairText (pair : Text × Text) : '&' ∉ pairText pair := by
  rw [pairText, List.mem_append, List.mem_cons]
  rintro (h | h | h)
  · exact separator_not_mem_encodeHalf (.inl rfl) _ h
  · exact absurd h (by decide)
  · exact separator_not_mem_encodeHalf (.inl rfl) _ h

/-- A pair that is written as a piece. -/
theorem encode_pairText (pair : Text × Text) :
    Utf8.encode (pairText pair) =
      Utf8.encode (encodeHalf pair.1) ++ 0x3D :: Utf8.encode (encodeHalf pair.2) := by
  rw [pairText, Utf8.encode_append]
  rfl

/-- A pair is read back from its piece, which the equals sign tells into its halves. -/
theorem cutFirst_encode_pairText (pair : Text × Text) :
    cutFirst (· == 0x3D) (Utf8.encode (pairText pair)) =
      (Utf8.encode (encodeHalf pair.1), Utf8.encode (encodeHalf pair.2)) := by
  have hno : (0x3D : UInt8) ∉ Utf8.encode (encodeHalf pair.1) := by
    intro h
    exact separator_not_mem_encodeHalf (.inr rfl) _
      ((Utf8.mem_encode_iff (d := '=') (by decide)).mp h)
  rw [encode_pairText, cutFirst, splitFirst_beq_append_cons hno]

/-- Texts with ampersands between are written as their octets with ampersands between. -/
theorem encode_intercalate (texts : List Text) :
    Utf8.encode (['&'].intercalate texts) = [0x26].intercalate (texts.map Utf8.encode) := by
  induction texts with
  | nil => rfl
  | cons t texts ih =>
    cases texts with
    | nil => simp
    | cons u texts =>
      rw [List.intercalate_cons_cons, Utf8.encode_append, Utf8.encode_append, ih, List.map_cons,
        List.map_cons, List.map_cons, List.intercalate_cons_cons]
      rfl

/-- The pieces of the text are what is written for the pairs. -/
theorem splitOn_toText {p : FormPairs} (h : p.pairs ≠ []) :
    (Utf8.encode p.toText).splitOn 0x26 = p.pairs.map fun pair => Utf8.encode (pairText pair) := by
  have hno : ∀ piece ∈ (p.pairs.map pairText).map Utf8.encode, (0x26 : UInt8) ∉ piece := by
    intro piece hpiece hmem
    obtain ⟨written, hwritten, rfl⟩ := List.mem_map.mp hpiece
    obtain ⟨pair, -, rfl⟩ := List.mem_map.mp hwritten
    exact ampersand_not_mem_pairText pair ((Utf8.mem_encode_iff (d := '&') (by decide)).mp hmem)
  show (Utf8.encode (['&'].intercalate (p.pairs.map pairText))).splitOn 0x26 = _
  rw [encode_intercalate, List.splitOn_intercalate 0x26 hno (by simpa using h), List.map_map]
  rfl

/-- **Pairs are read back from what is written for them**, all of them and in their order, whatever
texts they are made of. -/
theorem ofBytes_toText (p : FormPairs) : ofBytes (Utf8.encode p.toText) = p := by
  obtain ⟨pairs⟩ := p
  by_cases hnone : pairs = []
  · rw [hnone]
    rfl
  -- No piece is lost, since each has its equals sign.
  have hkept : ∀ piece ∈ pairs.map fun pair => Utf8.encode (pairText pair),
      (!piece.isEmpty) = true := by
    intro piece hpiece
    obtain ⟨pair, -, rfl⟩ := List.mem_map.mp hpiece
    rw [encode_pairText]
    simp
  rw [ofBytes, splitOn_toText hnone, List.filter_eq_self.mpr hkept, List.map_map]
  congr 1
  apply List.map_id''
  intro pair
  simp only [Function.comp_apply, cutFirst_encode_pairText, decodeHalf_encodeHalf]

/-- Empty halves, separators, signs that stand for something else, other scripts, and a name that
comes twice. -/
example :
    let p : FormPairs := ⟨[([], []), ("a=&".toList, "+ %2B".toList), ([], "ü€😀".toList),
      ("a=&".toList, [])]⟩
    p.toText = "=&a%3D%26=%2B+%252B&=%C3%BC%E2%82%AC%F0%9F%98%80&a%3D%26=".toList := by
  decide

end HttpWire.FormPairs
