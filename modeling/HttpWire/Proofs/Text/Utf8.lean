import HttpWire.Text.Utf8

/-!
# Laws of UTF-8

Reading undoes writing: `decodeLossy` gives back every text that `encode` writes
(`decodeLossy_encode`), and octets whose text has no replacement character are what `encode` writes
for that text (`encode_decodeLossy`).  So a text without U+FFFD is read from its own octets and from
no others (`decodeLossy_eq_iff`).

Both directions go character by character.  A first octet settles how many more are owed and which
ones may come next (`lead_two`, `lead_three`, `lead_four`), and the range of the second octet is
exactly what keeps the number from being one of an overlong form, of a surrogate, or beyond the last
character.
-/

namespace HttpWire.Utf8

/-! ### First octets -/

section

variable {b : UInt8}

theorem between_iff {low high d : UInt8} {m n : Nat} (hm : low.toNat = m) (hn : high.toNat = n) :
    low ≤ d ∧ d ≤ high ↔ m ≤ d.toNat ∧ d.toNat ≤ n := by
  rw [UInt8.le_iff_toNat_le, UInt8.le_iff_toNat_le, hm, hn]

theorem lead_one (h : b.toNat < 0x80) : lead b = ([Char.ofNat b.toNat], none) := by
  simp only [lead]
  rw [if_pos h]

theorem lead_two (h : 0xC2 ≤ b.toNat) (h' : b.toNat < 0xE0) :
    lead b = ([], some { bits := b.toNat - 0xC0, owed := 1 }) := by
  simp only [lead]
  rw [if_neg (by omega), if_neg (by omega), if_pos h']

/-- The second octet of three keeps the number from being too small or a surrogate. -/
theorem lead_three (h : 0xE0 ≤ b.toNat) (h' : b.toNat < 0xF0) :
    ∃ low high, lead b = ([], some { bits := b.toNat - 0xE0, owed := 2, low, high }) ∧
      ∀ d : UInt8, low ≤ d ∧ d ≤ high ↔ (0x80 ≤ d.toNat ∧ d.toNat ≤ 0xBF) ∧
        0x20 ≤ (b.toNat - 0xE0) * 64 + d.toNat % 64 ∧
          ¬ (0x360 ≤ (b.toNat - 0xE0) * 64 + d.toNat % 64 ∧
            (b.toNat - 0xE0) * 64 + d.toNat % 64 ≤ 0x37F) := by
  simp only [lead]
  rw [if_neg (by omega), if_neg (by omega), if_neg (by omega)]
  by_cases h0 : b.toNat = 0xE0
  · refine ⟨0xA0, 0xBF, by rw [if_pos h0, h0], ?_⟩
    intro d
    rw [between_iff (m := 0xA0) (n := 0xBF) rfl rfl, h0]
    omega
  · rw [if_neg h0]
    by_cases hd : b.toNat = 0xED
    · refine ⟨0x80, 0x9F, by rw [if_pos hd, hd], ?_⟩
      intro d
      rw [between_iff (m := 0x80) (n := 0x9F) rfl rfl, hd]
      omega
    · refine ⟨0x80, 0xBF, by rw [if_neg hd, if_pos h'], ?_⟩
      intro d
      rw [between_iff (m := 0x80) (n := 0xBF) rfl rfl]
      omega

/-- The second octet of four keeps the number from being too small or too large. -/
theorem lead_four (h : 0xF0 ≤ b.toNat) (h' : b.toNat < 0xF5) :
    ∃ low high, lead b = ([], some { bits := b.toNat - 0xF0, owed := 3, low, high }) ∧
      ∀ d : UInt8, low ≤ d ∧ d ≤ high ↔ (0x80 ≤ d.toNat ∧ d.toNat ≤ 0xBF) ∧
        0x10 ≤ (b.toNat - 0xF0) * 64 + d.toNat % 64 ∧
          (b.toNat - 0xF0) * 64 + d.toNat % 64 < 0x110 := by
  simp only [lead]
  rw [if_neg (by omega), if_neg (by omega), if_neg (by omega), if_neg (by omega),
    if_neg (by omega), if_neg (by omega)]
  by_cases h0 : b.toNat = 0xF0
  · refine ⟨0x90, 0xBF, by rw [if_pos h0, h0], ?_⟩
    intro d
    rw [between_iff (m := 0x90) (n := 0xBF) rfl rfl, h0]
    omega
  · rw [if_neg h0]
    by_cases hlt : b.toNat < 0xF4
    · refine ⟨0x80, 0xBF, by rw [if_pos hlt], ?_⟩
      intro d
      rw [between_iff (m := 0x80) (n := 0xBF) rfl rfl]
      omega
    · have h4 : b.toNat = 0xF4 := by omega
      refine ⟨0x80, 0x8F, by rw [if_neg hlt, if_pos h4, h4], ?_⟩
      intro d
      rw [between_iff (m := 0x80) (n := 0x8F) rfl rfl, h4]
      omega

/-- All other octets begin nothing. -/
theorem lead_other (h : 0x80 ≤ b.toNat) (h' : b.toNat < 0xC2 ∨ 0xF5 ≤ b.toNat) :
    lead b = ([replacement], none) := by
  simp only [lead]
  rw [if_neg (by omega)]
  rcases h' with h' | h'
  · rw [if_pos h']
  · rw [if_neg (by omega), if_neg (by omega), if_neg (by omega), if_neg (by omega),
      if_neg (by omega), if_neg (by omega), if_neg (by omega), if_neg (by omega)]

end

/-! ### Octets behind the first -/

section

variable {p : Pending} {b : UInt8} {y : Bytes}

/-- The sequence that an octet in its range leaves open. -/
def Pending.next (p : Pending) (b : UInt8) : Pending :=
  { bits := p.bits * 64 + b.toNat % 64, owed := p.owed - 1 }

theorem decodeFrom_of_owed (h : p.low ≤ b ∧ b ≤ p.high) (ho : 1 < p.owed) :
    decodeFrom (some p) (b :: y) = decodeFrom (some (p.next b)) y := by
  simp only [decodeFrom, step]
  rw [if_pos h, if_neg (by omega)]
  rfl

theorem decodeFrom_of_last (h : p.low ≤ b ∧ b ≤ p.high) (ho : p.owed = 1) :
    decodeFrom (some p) (b :: y) =
      Char.ofNat (p.bits * 64 + b.toNat % 64) :: decodeFrom none y := by
  simp only [decodeFrom, step]
  rw [if_pos h, if_pos (by omega)]
  rfl

/-- A sequence that leaves no replacement character goes on with an octet in its range. -/
theorem exists_of_not_mem {bs : Bytes} (h : replacement ∉ decodeFrom (some p) bs) :
    ∃ b y, bs = b :: y ∧ p.low ≤ b ∧ b ≤ p.high := by
  cases bs with
  | nil => exact absurd (List.mem_singleton.mpr rfl) h
  | cons b y =>
    by_cases hb : p.low ≤ b ∧ b ≤ p.high
    · exact ⟨b, y, rfl, hb⟩
    · refine absurd ?_ h
      simp only [decodeFrom, step]
      rw [if_neg hb]
      exact List.mem_cons_self ..

theorem decodeFrom_none (b : UInt8) (y : Bytes) :
    decodeFrom none (b :: y) = (lead b).1 ++ decodeFrom (lead b).2 y := rfl

end

/-! ### Characters -/

theorem isValidChar_toNat (c : Char) : c.toNat.isValidChar :=
  c.valid

theorem toNat_ofNat {n : Nat} (h : n.isValidChar) : (Char.ofNat n).toNat = n := by
  rw [Char.ofNat, dif_pos h]
  rfl

theorem toNat_tail (k : Nat) : (UInt8.ofNat (0x80 + k % 64)).toNat = 0x80 + k % 64 := by
  rw [UInt8.toNat_ofNat']
  omega

theorem toNat_first {k n : Nat} (h : k + n < 0x100) : (UInt8.ofNat (k + n)).toNat = k + n := by
  rw [UInt8.toNat_ofNat']
  omega

/-- An octet that only continues is told by the bits that it carries. -/
theorem ofNat_tail {b : UInt8} {k : Nat} (hb : 0x80 ≤ b.toNat ∧ b.toNat ≤ 0xBF)
    (hk : k % 64 = b.toNat % 64) : UInt8.ofNat (0x80 + k % 64) = b := by
  rw [← UInt8.toNat_inj, toNat_tail]
  omega

theorem ofNat_first {b : UInt8} {k n : Nat} (h : k + n = b.toNat) : UInt8.ofNat (k + n) = b := by
  rw [h, UInt8.ofNat_toNat]

theorem tail_mem (k : Nat) : (0x80 : UInt8) ≤ UInt8.ofNat (0x80 + k % 64) ∧
    UInt8.ofNat (0x80 + k % 64) ≤ (0xBF : UInt8) := by
  rw [between_iff (m := 0x80) (n := 0xBF) rfl rfl, toNat_tail]
  omega

/-! ### Characters that are written -/

section

variable {n : Nat}

theorem decodeFrom_two (h : 0x80 ≤ n) (h' : n < 0x800) (y : Bytes) :
    decodeFrom none (UInt8.ofNat (0xC0 + n / 64) :: UInt8.ofNat (0x80 + n % 64) :: y) =
      Char.ofNat n :: decodeFrom none y := by
  have hfirst : (UInt8.ofNat (0xC0 + n / 64)).toNat = 0xC0 + n / 64 := toNat_first (by omega)
  have hnumber : (0xC0 + n / 64 - 0xC0) * 64 + (0x80 + n % 64) % 64 = n := by omega
  rw [decodeFrom_none, lead_two (by omega) (by omega), List.nil_append,
    decodeFrom_of_last (tail_mem n) rfl, hfirst, toNat_tail, hnumber]

theorem decodeFrom_three (h : 0x800 ≤ n) (h' : n < 0x10000) (hvalid : n.isValidChar) (y : Bytes) :
    decodeFrom none (UInt8.ofNat (0xE0 + n / 4096) :: UInt8.ofNat (0x80 + n / 64 % 64) ::
      UInt8.ofNat (0x80 + n % 64) :: y) = Char.ofNat n :: decodeFrom none y := by
  have hfirst : (UInt8.ofNat (0xE0 + n / 4096)).toNat = 0xE0 + n / 4096 := toNat_first (by omega)
  obtain ⟨low, high, hlead, hrange⟩ :=
    lead_three (b := UInt8.ofNat (0xE0 + n / 4096)) (by omega) (by omega)
  have hsecond := (hrange (UInt8.ofNat (0x80 + n / 64 % 64))).mpr (by
    rw [hfirst, toNat_tail]
    omega)
  have hnumber : ((0xE0 + n / 4096 - 0xE0) * 64 + (0x80 + n / 64 % 64) % 64) * 64 +
      (0x80 + n % 64) % 64 = n := by omega
  rw [decodeFrom_none, hlead, List.nil_append, decodeFrom_of_owed hsecond (by decide : 1 < 2),
    decodeFrom_of_last (tail_mem n) rfl]
  simp only [Pending.next, hfirst, toNat_tail, hnumber]

theorem decodeFrom_four (h : 0x10000 ≤ n) (hvalid : n.isValidChar) (y : Bytes) :
    decodeFrom none (UInt8.ofNat (0xF0 + n / 262144) :: UInt8.ofNat (0x80 + n / 4096 % 64) ::
      UInt8.ofNat (0x80 + n / 64 % 64) :: UInt8.ofNat (0x80 + n % 64) :: y) =
        Char.ofNat n :: decodeFrom none y := by
  have hfirst : (UInt8.ofNat (0xF0 + n / 262144)).toNat = 0xF0 + n / 262144 :=
    toNat_first (by omega)
  obtain ⟨low, high, hlead, hrange⟩ :=
    lead_four (b := UInt8.ofNat (0xF0 + n / 262144)) (by omega) (by omega)
  have hsecond := (hrange (UInt8.ofNat (0x80 + n / 4096 % 64))).mpr (by
    rw [hfirst, toNat_tail]
    omega)
  have hnumber : (((0xF0 + n / 262144 - 0xF0) * 64 + (0x80 + n / 4096 % 64) % 64) * 64 +
      (0x80 + n / 64 % 64) % 64) * 64 + (0x80 + n % 64) % 64 = n := by omega
  rw [decodeFrom_none, hlead, List.nil_append, decodeFrom_of_owed hsecond (by decide : 1 < 3),
    decodeFrom_of_owed (tail_mem (n / 64)) (by decide : 1 < 3 - 1),
    decodeFrom_of_last (tail_mem n) rfl]
  simp only [Pending.next, hfirst, toNat_tail, hnumber]

/-- The octets of a character are read as that character. -/
theorem decodeFrom_encodeChar (c : Char) (y : Bytes) :
    decodeFrom none (encodeChar c ++ y) = c :: decodeFrom none y := by
  have hvalid := isValidChar_toNat c
  have hc : Char.ofNat c.toNat = c := Char.ofNat_toNat c
  simp only [encodeChar]
  generalize c.toNat = n at hvalid hc
  by_cases h₁ : n < 0x80
  · have hn : (UInt8.ofNat n).toNat = n := by
      rw [UInt8.toNat_ofNat']
      omega
    rw [if_pos h₁, List.singleton_append, decodeFrom_none, lead_one (by omega), hn, hc]
    rfl
  rw [if_neg h₁]
  by_cases h₂ : n < 0x800
  · rw [if_pos h₂, ← hc]
    exact decodeFrom_two (by omega) h₂ y
  rw [if_neg h₂]
  by_cases h₃ : n < 0x10000
  · rw [if_pos h₃, ← hc]
    exact decodeFrom_three (by omega) h₃ hvalid y
  · rw [if_neg h₃, ← hc]
    exact decodeFrom_four (by omega) hvalid y

end

/-! ### Characters that are read -/

section

variable {b : UInt8} {bs : Bytes}

/-- The range of the octets behind the second. -/
theorem tail_of_range {p : Pending} (hlow : p.low = 0x80) (hhigh : p.high = 0xBF)
    (h : p.low ≤ b ∧ b ≤ p.high) : 0x80 ≤ b.toNat ∧ b.toNat ≤ 0xBF := by
  rw [hlow, hhigh] at h
  exact (between_iff rfl rfl).mp h

theorem exists_two (hb : 0xC2 ≤ b.toNat) (hb' : b.toNat < 0xE0)
    (h : replacement ∉ decodeFrom none (b :: bs)) : ∃ c y, b :: bs = encodeChar c ++ y := by
  rw [decodeFrom_none, lead_two hb hb', List.nil_append] at h
  obtain ⟨d, y, rfl, hd⟩ := exists_of_not_mem h
  have hd := tail_of_range rfl rfl hd
  obtain ⟨n, hn⟩ : ∃ n, n = (b.toNat - 0xC0) * 64 + d.toNat % 64 := ⟨_, rfl⟩
  have hvalid : n.isValidChar := .inl (by omega)
  refine ⟨Char.ofNat n, y, ?_⟩
  simp only [encodeChar, toNat_ofNat hvalid]
  rw [if_neg (by omega), if_pos (by omega), ofNat_first (b := b) (by omega),
    ofNat_tail hd (by omega)]
  rfl

theorem exists_three (hb : 0xE0 ≤ b.toNat) (hb' : b.toNat < 0xF0)
    (h : replacement ∉ decodeFrom none (b :: bs)) : ∃ c y, b :: bs = encodeChar c ++ y := by
  obtain ⟨low, high, hlead, hrange⟩ := lead_three hb hb'
  rw [decodeFrom_none, hlead, List.nil_append] at h
  obtain ⟨d, y, rfl, hd⟩ := exists_of_not_mem h
  rw [decodeFrom_of_owed hd (by decide : 1 < 2)] at h
  obtain ⟨e, z, rfl, he⟩ := exists_of_not_mem h
  obtain ⟨hd, hnumber⟩ := (hrange d).mp hd
  have he := tail_of_range rfl rfl he
  obtain ⟨n, hn⟩ : ∃ n, n = ((b.toNat - 0xE0) * 64 + d.toNat % 64) * 64 + e.toNat % 64 := ⟨_, rfl⟩
  have hvalid : n.isValidChar := by
    rw [Nat.isValidChar]
    omega
  refine ⟨Char.ofNat n, z, ?_⟩
  simp only [encodeChar, toNat_ofNat hvalid]
  rw [if_neg (by omega), if_neg (by omega), if_pos (by omega), ofNat_first (b := b) (by omega),
    ofNat_tail hd (by omega), ofNat_tail he (by omega)]
  rfl

theorem exists_four (hb : 0xF0 ≤ b.toNat) (hb' : b.toNat < 0xF5)
    (h : replacement ∉ decodeFrom none (b :: bs)) : ∃ c y, b :: bs = encodeChar c ++ y := by
  obtain ⟨low, high, hlead, hrange⟩ := lead_four hb hb'
  rw [decodeFrom_none, hlead, List.nil_append] at h
  obtain ⟨d, y, rfl, hd⟩ := exists_of_not_mem h
  rw [decodeFrom_of_owed hd (by decide : 1 < 3)] at h
  obtain ⟨e, z, rfl, he⟩ := exists_of_not_mem h
  rw [decodeFrom_of_owed he (by decide : 1 < 3 - 1)] at h
  obtain ⟨f, w, rfl, hf⟩ := exists_of_not_mem h
  obtain ⟨hd, hnumber⟩ := (hrange d).mp hd
  have he := tail_of_range rfl rfl he
  have hf := tail_of_range rfl rfl hf
  obtain ⟨n, hn⟩ : ∃ n, n = (((b.toNat - 0xF0) * 64 + d.toNat % 64) * 64 + e.toNat % 64) * 64 +
      f.toNat % 64 := ⟨_, rfl⟩
  have hvalid : n.isValidChar := by
    rw [Nat.isValidChar]
    omega
  refine ⟨Char.ofNat n, w, ?_⟩
  simp only [encodeChar, toNat_ofNat hvalid]
  rw [if_neg (by omega), if_neg (by omega), if_neg (by omega), ofNat_first (b := b) (by omega),
    ofNat_tail hd (by omega), ofNat_tail he (by omega), ofNat_tail hf (by omega)]
  rfl

/-- Octets that are read without a replacement character begin with those of a character. -/
theorem exists_encodeChar_append (h : replacement ∉ decodeFrom none (b :: bs)) :
    ∃ c y, b :: bs = encodeChar c ++ y := by
  by_cases h₁ : b.toNat < 0x80
  · have hvalid : b.toNat.isValidChar := .inl (by omega)
    refine ⟨Char.ofNat b.toNat, bs, ?_⟩
    simp only [encodeChar, toNat_ofNat hvalid]
    rw [if_pos h₁, UInt8.ofNat_toNat]
    rfl
  by_cases hno : b.toNat < 0xC2 ∨ 0xF5 ≤ b.toNat
  · rw [decodeFrom_none, lead_other (by omega) hno] at h
    exact absurd (List.mem_cons_self ..) h
  by_cases h₂ : b.toNat < 0xE0
  · exact exists_two (by omega) h₂ h
  by_cases h₃ : b.toNat < 0xF0
  · exact exists_three (by omega) h₃ h
  · exact exists_four (by omega) (by omega) h

end

/-! ### Texts -/

theorem encodeChar_ne_nil (c : Char) : encodeChar c ≠ [] := by
  simp only [encodeChar]
  repeat' split
  all_goals simp

theorem encode_append (t u : Text) : encode (t ++ u) = encode t ++ encode u :=
  List.flatMap_append

theorem size_append (t u : Text) : size (t ++ u) = size t + size u := by
  rw [size, encode_append, List.length_append, size, size]

/-- **A text is read from what is written for it.** -/
theorem decodeLossy_encode (t : Text) : decodeLossy (encode t) = t := by
  induction t with
  | nil => rfl
  | cons c t ih =>
    rw [decodeLossy, encode, List.flatMap_cons, decodeFrom_encodeChar]
    exact congrArg (c :: ·) ih

/-- **Octets that are read without a replacement are written for what is read.** -/
theorem encode_decodeLossy {bs : Bytes} (h : replacement ∉ decodeLossy bs) :
    encode (decodeLossy bs) = bs := by
  -- By induction on the number of octets; each character takes at least one of them.
  induction hn : bs.length using Nat.strongRecOn generalizing bs with
  | ind n ih =>
    cases bs with
    | nil => rfl
    | cons b rest =>
      obtain ⟨c, y, heq⟩ := exists_encodeChar_append h
      have hread : decodeLossy (b :: rest) = c :: decodeLossy y := by
        rw [heq]
        exact decodeFrom_encodeChar c y
      have hpos : 0 < (encodeChar c).length := List.length_pos_iff.mpr (encodeChar_ne_nil c)
      have hlt : y.length < n := by
        rw [← hn, heq, List.length_append]
        omega
      rw [hread] at h ⊢
      rw [encode, List.flatMap_cons, ← encode,
        ih y.length hlt (fun hmem => h (List.mem_cons_of_mem _ hmem)) rfl, heq]

/-- A text without U+FFFD is read from its own octets and from no others. -/
theorem decodeLossy_eq_iff {bs : Bytes} {t : Text} (ht : replacement ∉ t) :
    decodeLossy bs = t ↔ bs = encode t := by
  constructor
  · rintro rfl
    exact (encode_decodeLossy ht).symm
  · rintro rfl
    exact decodeLossy_encode t

/-! ### ASCII characters among others -/

section

variable {t : Text} {c d : Char} {b : UInt8}

/-- The octets of all other characters lie above the ASCII range. -/
theorem le_toNat_of_mem_encodeChar (hc : 0x80 ≤ c.toNat) (hb : b ∈ encodeChar c) :
    0x80 ≤ b.toNat := by
  have hvalid := isValidChar_toNat c
  rw [Nat.isValidChar] at hvalid
  simp only [encodeChar] at hb
  rw [if_neg (by omega)] at hb
  split at hb
  · simp only [List.mem_cons, List.not_mem_nil, or_false] at hb
    rcases hb with rfl | rfl
    · rw [toNat_first (by omega)]
      omega
    · rw [toNat_tail]
      omega
  · split at hb
    · simp only [List.mem_cons, List.not_mem_nil, or_false] at hb
      rcases hb with rfl | rfl | rfl
      · rw [toNat_first (by omega)]
        omega
      all_goals
        rw [toNat_tail]
        omega
    · simp only [List.mem_cons, List.not_mem_nil, or_false] at hb
      rcases hb with rfl | rfl | rfl | rfl
      · rw [toNat_first (by omega)]
        omega
      all_goals
        rw [toNat_tail]
        omega

/-- The octet of an ASCII character is among the octets of that character only. -/
theorem mem_encodeChar_iff (hd : d.toNat < 0x80) :
    UInt8.ofNat d.toNat ∈ encodeChar c ↔ d = c := by
  have hoctet : (UInt8.ofNat d.toNat).toNat = d.toNat := by
    rw [UInt8.toNat_ofNat']
    omega
  constructor
  · intro hmem
    by_cases hc : c.toNat < 0x80
    · simp only [encodeChar] at hmem
      rw [if_pos hc, List.mem_singleton, ← UInt8.toNat_inj, hoctet, UInt8.toNat_ofNat',
        Nat.mod_eq_of_lt (by omega)] at hmem
      exact Char.toNat_inj.mp hmem
    · have hle := le_toNat_of_mem_encodeChar (by omega) hmem
      omega
  · rintro rfl
    simp only [encodeChar]
    rw [if_pos hd]
    exact List.mem_singleton.mpr rfl

/-- Whether the octet of an ASCII character occurs is told by the characters. -/
theorem mem_encode_iff (hd : d.toNat < 0x80) : UInt8.ofNat d.toNat ∈ encode t ↔ d ∈ t := by
  rw [encode, List.mem_flatMap]
  constructor
  · rintro ⟨c, hc, hmem⟩
    rw [(mem_encodeChar_iff hd).mp hmem]
    exact hc
  · intro hmem
    exact ⟨d, hmem, (mem_encodeChar_iff hd).mpr rfl⟩

/-- A text whose octets end in that of an ASCII character ends in that character. -/
theorem exists_concat_of_getLast? (hd : d.toNat < 0x80)
    (h : (encode t).getLast? = some (UInt8.ofNat d.toNat)) : ∃ u, t = u ++ [d] := by
  rcases List.eq_nil_or_concat t with rfl | ⟨u, c, rfl⟩
  · cases h
  · refine ⟨u, ?_⟩
    rw [List.concat_eq_append, encode_append, encode, encode, List.flatMap_singleton,
      List.getLast?_append] at h
    cases hlast : (encodeChar c).getLast? with
    | none => exact absurd (List.getLast?_eq_none_iff.mp hlast) (encodeChar_ne_nil c)
    | some b =>
      rw [hlast] at h
      obtain rfl : b = UInt8.ofNat d.toNat := Option.some.inj h
      rw [List.concat_eq_append, (mem_encodeChar_iff hd).mp (List.mem_of_getLast? hlast)]

end

end HttpWire.Utf8
