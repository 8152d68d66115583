import HttpWire.Proofs.Body.SizeLine

/-!
# The arithmetic of sizes

Which lines have a size and which have none, with the fault of those (`chunkSize_classifies`).  What
counts is the part in front of the first semicolon: a numeral below the bound with spaces and tabs
behind it is a size (`WritesSize`), and every other text has one of three flaws (`SizeFlaw`,
`exists_flaw`), found by going through its digits as far as there are any.

The numbers have 64 bits.  `chunkSizeWord` adds up the digits in words of that length, and checks
the product and the sum of each step.  It gives the same answers (`chunkSize_eq_word`), and a step
that it takes is one in which neither the product nor the sum is cut to 64 bits
(`chunkDigitWord_iff`).
-/

namespace HttpWire

variable {line text front behind : Text} {start size n : Nat} {fault : ChunkFault}

/-! ### Texts with a size and texts without -/

/-- A text writes a size: a hexadecimal numeral of 64 bits, with spaces and tabs behind it. -/
inductive WritesSize : Text → Nat → Prop
  | intro {digits padding : Text} {size : Nat} (hnumber : HexNumeral digits size)
    (hsize : size < UInt64.size) (hpadding : ∀ c ∈ padding, c = ' ' ∨ c = '\t') :
    WritesSize (digits ++ padding) size

/-- Why a text writes no size, as it is told of the line that the text is part of. -/
inductive SizeFlaw (line : Text) : Text → ChunkFault → Prop
  /-- There are only spaces and tabs. -/
  | missing {padding : Text} (hpadding : ∀ c ∈ padding, c = ' ' ∨ c = '\t') :
    SizeFlaw line padding .missingSize
  /-- Behind the digits, if there are any, comes something that is neither a digit nor padding up to
  the end. -/
  | badDigit {front behind : Text} {c : Char}
    (hfront : front = [] ∨ ∃ n < UInt64.size, HexNumeral front n)
    (hc : ∀ d, ¬ Text.IsHexDigit c d) (hbehind : ∃ b ∈ c :: behind, ¬ (b = ' ' ∨ b = '\t')) :
    SizeFlaw line (front ++ c :: behind) (.badSizeLine line)
  /-- The digits at the beginning write more than 64 bits hold. -/
  | overflow {front : Text} {n : Nat} (hfront : HexNumeral front n) (hn : UInt64.size ≤ n)
    (behind : Text) : SizeFlaw line (front ++ behind) .sizeOverflow

/-- A text that writes no size has a flaw. -/
theorem exists_flaw (line : Text) (h : ∀ size, ¬ WritesSize text size) :
    ∃ fault, SizeFlaw line text fault := by
  obtain ⟨digits, rest, n, rfl, hn, hrest⟩ := Text.exists_digits 0 text
  have hnumeral (hne : digits ≠ []) : HexNumeral digits n := hexNumeral_iff.mpr ⟨hne, hn⟩
  by_cases hsize : n < UInt64.size
  · have hfront : digits = [] ∨ ∃ n < UInt64.size, HexNumeral digits n := by
      by_cases hne : digits = []
      · exact .inl hne
      · exact .inr ⟨n, hsize, hnumeral hne⟩
    by_cases hpadding : ∀ c ∈ rest, c = ' ' ∨ c = '\t'
    · by_cases hne : digits = []
      · rw [hne]
        exact ⟨_, .missing hpadding⟩
      · exact absurd (.intro (hnumeral hne) hsize hpadding) (h n)
    · obtain ⟨b, hb, hother⟩ : ∃ b ∈ rest, ¬ (b = ' ' ∨ b = '\t') := by
        simpa using hpadding
      cases rest with
      | nil => cases hb
      | cons c behind =>
        have hc : Text.hexValue? c = none := hrest c rfl
        refine ⟨_, .badDigit hfront (fun d hd => ?_) ⟨b, hb, hother⟩⟩
        rw [Text.hexValue?_eq_some_iff.mpr hd] at hc
        cases hc
  · have hne : digits ≠ [] := by
      rintro rfl
      obtain rfl : 0 = n := Option.some.inj hn
      exact hsize (by decide)
    exact ⟨_, .overflow (hnumeral hne) (Nat.le_of_not_lt hsize) rest⟩

/-! ### Faults -/

/-- Digits are refused if their number is too large for 64 bits. -/
theorem foldlM_chunkDigit_overflow (hstart : start < UInt64.size)
    (h : Text.hexNumberFrom? start front = some n) (hn : UInt64.size ≤ n) :
    front.foldlM (chunkDigit line) start = .error .sizeOverflow := by
  induction front generalizing start with
  | nil =>
    obtain rfl : start = n := Option.some.inj h
    omega
  | cons c front ih =>
    obtain ⟨d, hd, hrest⟩ := Text.hexNumberFrom?_cons_iff.mp h
    rw [List.foldlM_cons, chunkDigit, hd]
    by_cases hlt : start * 16 + d < UInt64.size
    · simp only [if_pos hlt]
      exact ih hlt hrest
    · simp only [if_neg hlt]
      rfl

/-- Digits that have been read come to a number of 64 bits. -/
theorem exists_foldlM_chunkDigit (line : Text)
    (hfront : front = [] ∨ ∃ n < UInt64.size, HexNumeral front n) :
    ∃ n, front.foldlM (chunkDigit line) 0 = .ok n := by
  rcases hfront with rfl | ⟨n, hn, hnumeral⟩
  · exact ⟨0, rfl⟩
  · exact ⟨n, (foldlM_chunkDigit_eq_ok_iff (by decide)).mpr ⟨(hexNumeral_iff.mp hnumeral).2, hn⟩⟩

/-- What a line is judged by. -/
theorem chunkSize_eq (line : Text) :
    chunkSize line =
      if Text.trimPadding (line.takeWhile (· != ';')) = [] then .error .missingSize
      else (Text.trimPadding (line.takeWhile (· != ';'))).foldlM (chunkDigit line) 0 := by
  simp only [chunkSize, cutFirst_fst, List.isEmpty_iff]
  rfl

/-- Where something else than padding comes, nothing in front of it is trimmed. -/
theorem exists_trimPadding_cons {c : Char} (h : ∃ b ∈ c :: behind, ¬ (b = ' ' ∨ b = '\t'))
    (front : Text) : ∃ rest, Text.trimPadding (front ++ c :: behind) = front ++ c :: rest := by
  obtain ⟨b, hb, hother⟩ := h
  rw [← Text.isSpaceOrTab_iff, Bool.not_eq_true] at hother
  obtain ⟨hkept, htrim⟩ := Text.dropTrailing_append_of_kept ⟨b, hb, hother⟩ front
  obtain ⟨first, rest, hrest⟩ := List.exists_cons_of_ne_nil hkept
  obtain ⟨taken, hwhole, -⟩ :=
    Text.exists_dropTrailing_append (p := Text.isSpaceOrTab) (c :: behind)
  rw [hrest, List.cons_append] at hwhole
  rw [Text.trimPadding, htrim, hrest, (List.cons.inj hwhole).1]
  exact ⟨rest, rfl⟩

/-- Digits are not trimmed, whatever stands behind them. -/
theorem exists_trimPadding_digits (h : HexNumeral front n) (behind : Text) :
    ∃ rest, Text.trimPadding (front ++ behind) = front ++ rest := by
  by_cases hpadding : ∀ b ∈ behind, b = ' ' ∨ b = '\t'
  · obtain ⟨hne, hnumber⟩ := hexNumeral_iff.mp h
    exact ⟨[], by rw [trimPadding_digits hne hnumber hpadding, List.append_nil]⟩
  · have hother : ∃ b ∈ behind, ¬ (b = ' ' ∨ b = '\t') := by simpa using hpadding
    cases behind with
    | nil => exact absurd (by simp) hpadding
    | cons c behind =>
      obtain ⟨rest, hrest⟩ := exists_trimPadding_cons hother front
      exact ⟨c :: rest, hrest⟩

/-- A line is refused for the flaw of the text in front of its first semicolon. -/
theorem chunkSize_of_flaw (h : SizeFlaw line (line.takeWhile (· != ';')) fault) :
    chunkSize line = .error fault := by
  rw [chunkSize_eq]
  generalize line.takeWhile (· != ';') = text at h
  cases h with
  | missing hpadding =>
    have hspace : ∀ c ∈ text, Text.isSpaceOrTab c = true :=
      fun c hc => Text.isSpaceOrTab_iff.mpr (hpadding c hc)
    exact if_pos (Text.dropTrailing_append hspace [])
  | badDigit hfront hc hbehind =>
    next front behind c =>
    obtain ⟨rest, hrest⟩ := exists_trimPadding_cons hbehind front
    obtain ⟨n, hn⟩ := exists_foldlM_chunkDigit line hfront
    have hnone : Text.hexValue? c = none := by
      rw [Option.eq_none_iff_forall_ne_some]
      exact fun d hd => hc d (Text.hexValue?_eq_some_iff.mp hd)
    rw [hrest, if_neg (by simp), List.foldlM_append, hn]
    show (chunkDigit line n c).bind _ = _
    rw [chunkDigit, hnone]
    rfl
  | overflow hfront hn behind =>
    next front n =>
    obtain ⟨rest, hrest⟩ := exists_trimPadding_digits hfront behind
    obtain ⟨hne, hnumber⟩ := hexNumeral_iff.mp hfront
    rw [hrest, if_neg (by simp [hne]), List.foldlM_append,
      foldlM_chunkDigit_overflow (by decide) hnumber hn]
    rfl

/-- A size is read where the text in front of the first semicolon writes it. -/
theorem chunkSize_iff_writesSize :
    chunkSize line = .ok size ↔ WritesSize (line.takeWhile (· != ';')) size := by
  rw [chunkSize_eq_ok_iff]
  show _ ↔ WritesSize (line.takeWhile (!· == ';')) size
  rw [← cutFirst_fst]
  constructor
  · rintro ⟨hne, hnumber, hsize, hpadding, htail⟩
    rw [cutFirst_of_tail (no_semicolon_of_digits hnumber hpadding) htail]
    exact .intro (hexNumeral_iff.mpr ⟨hne, hnumber⟩) hsize hpadding
  · intro h
    obtain ⟨tail, hline, htail⟩ := exists_tail_of_cutFirst line
    rw [hline]
    generalize (cutFirst (· == ';') line).1 = head at h
    obtain ⟨hnumeral, hsize, hpadding⟩ := h
    obtain ⟨hne, hnumber⟩ := hexNumeral_iff.mp hnumeral
    exact .intro hne hnumber hsize hpadding htail

theorem not_writesSize_of_error (h : chunkSize line = .error fault) (size : Nat) :
    ¬ WritesSize (line.takeWhile (· != ';')) size := by
  intro hsize
  rw [chunkSize_iff_writesSize.mpr hsize] at h
  cases h

/-! ### Words of 64 bits -/

/-- A word that was computed for a number, unless the number is longer than a word. -/
def uncut? (number : Nat) (word : UInt64) : Option UInt64 :=
  if number < UInt64.size then some word else none

/-- Sixteen times a word, and then a digit, each checked. -/
def nextWord? (word digit : UInt64) : Option UInt64 :=
  (uncut? (word.toNat * 16) (word * 16)).bind fun product =>
    uncut? (product.toNat + digit.toNat) (product + digit)

/-- One more digit behind a word. -/
def chunkDigitWord (line : Text) (word : UInt64) (c : Char) : Except ChunkFault UInt64 :=
  match Text.hexValue? c with
  | none => .error (.badSizeLine line)
  | some d =>
    match nextWord? word (UInt64.ofNat d) with
    | none => .error .sizeOverflow
    | some next => .ok next

/-- The size that a size line announces, in words. -/
def chunkSizeWord (line : Text) : Except ChunkFault UInt64 :=
  let digits := Text.trimPadding (cutFirst (· == ';') line).1
  if digits.isEmpty then .error .missingSize else digits.foldlM (chunkDigitWord line) 0

/-- What passes the check is the number itself. -/
theorem uncut?_eq_some_iff {number : Nat} {word result : UInt64}
    (h : word.toNat = number % UInt64.size) :
    uncut? number word = some result ↔ result = word ∧ word.toNat = number := by
  rw [uncut?]
  split
  · next hfits =>
    rw [Nat.mod_eq_of_lt hfits] at h
    simp [h, eq_comm]
  · next hlong =>
    have hlt : word.toNat < UInt64.size := word.toNat_lt
    simp only [reduceCtorEq, false_iff, not_and]
    omega

/-- What the two checks of a step come to. -/
theorem nextWord?_eq_some_iff {word digit next : UInt64} :
    nextWord? word digit = some next ↔
      (word * 16).toNat = word.toNat * 16 ∧
        (word * 16 + digit).toNat = word.toNat * 16 + digit.toNat ∧ next = word * 16 + digit := by
  rw [nextWord?, Option.bind_eq_some_iff]
  constructor
  · rintro ⟨product, hp, hs⟩
    obtain ⟨rfl, hproduct⟩ := (uncut?_eq_some_iff (UInt64.toNat_mul word 16)).mp hp
    obtain ⟨rfl, hsum⟩ := (uncut?_eq_some_iff (UInt64.toNat_add _ digit)).mp hs
    rw [hproduct] at hsum
    exact ⟨hproduct, hsum, rfl⟩
  · rintro ⟨hproduct, hsum, rfl⟩
    refine ⟨word * 16, (uncut?_eq_some_iff (UInt64.toNat_mul word 16)).mpr ⟨rfl, hproduct⟩, ?_⟩
    rw [uncut?_eq_some_iff (UInt64.toNat_add _ digit), hproduct]
    exact ⟨rfl, hsum⟩

/-- A step is refused if and only if the number is longer than a word. -/
theorem nextWord?_eq_none_iff {word digit : UInt64} :
    nextWord? word digit = none ↔ UInt64.size ≤ word.toNat * 16 + digit.toNat := by
  constructor
  · intro hnone
    by_contra hlong
    have hproduct : (word * 16).toNat = word.toNat * 16 := by
      rw [UInt64.toNat_mul]
      exact Nat.mod_eq_of_lt (show word.toNat * 16 < UInt64.size by omega)
    have hsum : (word * 16 + digit).toNat = word.toNat * 16 + digit.toNat := by
      rw [UInt64.toNat_add, hproduct]
      exact Nat.mod_eq_of_lt (Nat.lt_of_not_le hlong)
    rw [nextWord?_eq_some_iff.mpr ⟨hproduct, hsum, rfl⟩] at hnone
    cases hnone
  · intro hlong
    rw [Option.eq_none_iff_forall_ne_some]
    intro next hnext
    obtain ⟨-, hsum, -⟩ := nextWord?_eq_some_iff.mp hnext
    exact absurd (hsum ▸ UInt64.toNat_lt _) (Nat.not_lt_of_le hlong)

/-- A digit is the same number as a word. -/
theorem toNat_digitWord {c : Char} {d : Nat} (h : Text.hexValue? c = some d) :
    (UInt64.ofNat d).toNat = d :=
  UInt64.toNat_ofNat_of_lt' (Nat.lt_trans (Text.hexValue?_eq_some_iff.mp h).1 (by decide))

/-- **A step that is taken adds a digit, and neither its product nor its sum is cut.** -/
theorem chunkDigitWord_iff {word next : UInt64} {c : Char} :
    chunkDigitWord line word c = .ok next ↔
      ∃ d, Text.IsHexDigit c d ∧ (word * 16).toNat = word.toNat * 16 ∧
        (word * 16 + UInt64.ofNat d).toNat = word.toNat * 16 + d ∧
          next = word * 16 + UInt64.ofNat d := by
  simp only [← Text.hexValue?_eq_some_iff]
  rw [chunkDigitWord]
  cases hc : Text.hexValue? c with
  | none => simp
  | some d =>
    have hnext : nextWord? word (UInt64.ofNat d) = some next ↔ _ := nextWord?_eq_some_iff
    rw [toNat_digitWord hc] at hnext
    simp only [Option.some.injEq, exists_eq_left', ← hnext]
    cases nextWord? word (UInt64.ofNat d) <;> simp

/-- Words and numbers go the same way, digit by digit. -/
theorem chunkDigit_eq_word (line : Text) (word : UInt64) (c : Char) :
    chunkDigit line word.toNat c = (chunkDigitWord line word c).map UInt64.toNat := by
  rw [chunkDigit, chunkDigitWord]
  cases hc : Text.hexValue? c with
  | none => rfl
  | some d =>
    have hd := toNat_digitWord hc
    dsimp only
    cases hnext : nextWord? word (UInt64.ofNat d) with
    | some next =>
      obtain ⟨-, hsum, rfl⟩ := nextWord?_eq_some_iff.mp hnext
      rw [hd] at hsum
      rw [← hsum, if_pos (UInt64.toNat_lt _)]
      rfl
    | none =>
      rw [nextWord?_eq_none_iff, hd] at hnext
      rw [if_neg (Nat.not_lt_of_le hnext)]
      rfl

theorem foldlM_chunkDigit_eq_word (line digits : Text) (word : UInt64) :
    digits.foldlM (chunkDigit line) word.toNat =
      (digits.foldlM (chunkDigitWord line) word).map UInt64.toNat := by
  induction digits generalizing word with
  | nil => rfl
  | cons c digits ih =>
    rw [List.foldlM_cons, List.foldlM_cons, chunkDigit_eq_word]
    cases chunkDigitWord line word c with
    | error fault => rfl
    | ok next => exact ih next

/-- **A size is computed in words as it is in numbers.** -/
theorem chunkSize_eq_word (line : Text) :
    chunkSize line = (chunkSizeWord line).map UInt64.toNat := by
  simp only [chunkSize, chunkSizeWord]
  split
  · rfl
  · exact foldlM_chunkDigit_eq_word line _ 0

/-- **Which lines have a size, and how it is computed.**  A line has a size if and only if the text
in front of its first semicolon writes it, and every other line is refused for the flaw of that
text.  In words of 64 bits the answer is the same, and a step from any word is taken if and only if
it comes to the product and the sum of the numbers. -/
theorem chunkSize_classifies (line : Text) :
    (∀ size, chunkSize line = .ok size ↔ WritesSize (line.takeWhile (· != ';')) size) ∧
      (∀ fault, chunkSize line = .error fault ↔
        SizeFlaw line (line.takeWhile (· != ';')) fault) ∧
      ((∃ fault, chunkSize line = .error fault) ↔
        ∀ size, ¬ WritesSize (line.takeWhile (· != ';')) size) ∧
      chunkSize line = (chunkSizeWord line).map UInt64.toNat ∧
      ∀ word c next, chunkDigitWord line word c = .ok next ↔
        ∃ d, Text.IsHexDigit c d ∧ (word * 16).toNat = word.toNat * 16 ∧
          (word * 16 + UInt64.ofNat d).toNat = word.toNat * 16 + d ∧
            next = word * 16 + UInt64.ofNat d := by
  refine ⟨fun size => chunkSize_iff_writesSize, ?_, ?_, chunkSize_eq_word line,
    fun word c next => chunkDigitWord_iff⟩
  · intro fault
    refine ⟨fun h => ?_, chunkSize_of_flaw⟩
    obtain ⟨fault', hflaw⟩ := exists_flaw line (not_writesSize_of_error h)
    rw [chunkSize_of_flaw hflaw, Except.error.injEq] at h
    rw [← h]
    exact hflaw
  · constructor
    · rintro ⟨fault, h⟩
      exact not_writesSize_of_error h
    · intro hno
      obtain ⟨fault, hflaw⟩ := exists_flaw line hno
      exact ⟨fault, chunkSize_of_flaw hflaw⟩

/-- Zeros in front and extensions count for nothing; the largest size and the first that is too
large; and a number behind the padding. -/
example : chunkSize "000fFfFfFfFfFfFfFfF\t ;x;y".toList = .ok 18446744073709551615 ∧
    chunkSize "10000000000000000".toList = .error .sizeOverflow ∧
      chunkSize "1 2".toList = .error (.badSizeLine "1 2".toList) ∧
        chunkSize " ;1".toList = .error .missingSize := by
  decide

end HttpWire
