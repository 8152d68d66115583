import HttpWire.Reading.Reader
import HttpWire.Text.Split

/-!
# The buffered reader

A buffered reader keeps what the last read of its source returned and has not been handed out.
The source is read only when the buffer is empty, is then asked for no more than the capacity,
and is never asked again once it has answered with nothing.

A line is taken through the first line feed, or to the end if there is none.  A line that cannot
be decoded is taken all the same.  `remaining_takeLine` and its companions are the account of
octets: what an operation leaves and what it counts as consumed add up to what there was.
-/

namespace HttpWire

/-- A reader that keeps what its source returned. -/
structure BufferedReader (σ : Type) where
  source : σ
  /-- Octets read but not handed out. -/
  buffer : Bytes := []
  /-- The most octets to ask for at once. -/
  capacity : Nat
  charset : LineCharset := .ascii
  lastTaken : Nat := 0
  /-- Whether the source has answered with nothing. -/
  atEnd : Bool := false
  capacity_pos : 0 < capacity

namespace BufferedReader

/-- The capacity where none is asked for. -/
def defaultCapacity : Nat := 2048

/-- A reader with an empty buffer.  A capacity of zero counts as one. -/
def ofSource {σ : Type} (source : σ) (capacity : Nat) (charset : LineCharset := .ascii) :
    BufferedReader σ :=
  { source, capacity := max capacity 1, charset, capacity_pos := by omega }

variable {σ : Type} [ByteSource σ]

/-- The octets in the buffer and those that the source still holds. -/
def remaining (r : BufferedReader σ) : Nat :=
  r.buffer.length + ByteSource.available r.source

/-- Reads the source into the buffer, whose octets have been handed out; `false` at the end. -/
def fill (r : BufferedReader σ) : Except (Stop ReceiveError) Bool × BufferedReader σ :=
  if r.atEnd then (.ok false, { r with buffer := [] })
  else
    match ByteSource.read r.capacity r.source with
    | (.error e, s) => (.error (e.map .io), { r with source := s, buffer := [] })
    | (.ok [], s) => (.ok false, { r with source := s, buffer := [], atEnd := true })
    | (.ok (b :: bs), s) => (.ok true, { r with source := s, buffer := b :: bs })

/-- Filling moves octets from the source to the buffer. -/
theorem remaining_fill (r : BufferedReader σ) :
    r.fill.2.remaining = ByteSource.available r.source := by
  unfold fill
  split
  · simp [remaining]
  · split
    · next h => simpa [remaining] using ByteSource.available_stopped h
    · next h => simpa [remaining] using ByteSource.available_read h
    · next h => simpa [remaining] using ByteSource.available_read h

@[simp] theorem lastTaken_fill (r : BufferedReader σ) :
    r.fill.2.lastTaken = r.lastTaken := by
  unfold fill
  split
  · rfl
  · split <;> rfl

/-- A successful filling leaves less in the source. -/
theorem available_lt_of_fill {r r' : BufferedReader σ} (h : r.fill = (.ok true, r')) :
    ByteSource.available r'.source < ByteSource.available r.source := by
  unfold fill at h
  split at h
  · cases h
  · split at h
    · cases h
    · cases h
    · next hr =>
      cases h
      have := ByteSource.available_read hr
      simp only [List.length_cons] at this
      simp only
      omega

/-- Counts the buffer as handed out and fills it again. -/
def advance (r : BufferedReader σ) : Except (Stop ReceiveError) Bool × BufferedReader σ :=
  fill { r with lastTaken := r.lastTaken + r.buffer.length }

theorem remaining_advance (r : BufferedReader σ) :
    r.advance.2.remaining + r.advance.2.lastTaken = r.remaining + r.lastTaken := by
  have h := remaining_fill { r with lastTaken := r.lastTaken + r.buffer.length }
  rw [advance, h, lastTaken_fill]
  simp only [remaining]
  omega

theorem available_lt_of_advance {r r' : BufferedReader σ} (h : r.advance = (.ok true, r')) :
    ByteSource.available r'.source < ByteSource.available r.source :=
  available_lt_of_fill (r := { r with lastTaken := r.lastTaken + r.buffer.length }) h

/-! ### Lines -/

/-- Takes the rest of a line of which `line` has been taken. -/
def takeLine (line : Bytes) (r : BufferedReader σ) :
    Except (Stop ReceiveError) (Option Text) × BufferedReader σ :=
  match splitFirst (· == lineFeed) r.buffer with
  | some (before, _, after) =>
    (r.charset.answer (dropReturn (line ++ before)),
      { r with buffer := after, lastTaken := r.lastTaken + before.length + 1 })
  | none =>
    match _h : r.advance with
    | (.error e, r') => (.error e, r')
    | (.ok false, r') =>
      if r'.lastTaken = 0 then (.ok none, r')
      -- The last line has no line feed, so a carriage return at its end is part of it.
      else (r'.charset.answer (line ++ r.buffer), r')
    | (.ok true, r') => takeLine (line ++ r.buffer) r'
termination_by ByteSource.available r.source
decreasing_by exact available_lt_of_advance _h

/-- Reads the next line. -/
def readLine (r : BufferedReader σ) : Except (Stop ReceiveError) (Option Text) × BufferedReader σ :=
  takeLine [] { r with lastTaken := 0 }

/-- Taking a line moves octets from what remains to what has been consumed. -/
theorem remaining_takeLine (line : Bytes) (r : BufferedReader σ) :
    (takeLine line r).2.remaining + (takeLine line r).2.lastTaken =
      r.remaining + r.lastTaken := by
  fun_induction takeLine line r with
  | case1 line r before sep after h =>
    have hl := congrArg List.length (splitFirst_eq_some h)
    simp only [List.length_append, List.length_cons] at hl
    simp only [remaining, hl]
    omega
  | case2 line r _ e r' h => simpa [h] using remaining_advance r
  | case3 line r _ r' h _ => simpa [h] using remaining_advance r
  | case4 line r _ r' h _ => simpa [h] using remaining_advance r
  | case5 line r _ r' h ih => rw [ih]; simpa [h] using remaining_advance r

/-- A line that is returned has taken something. -/
theorem lastTaken_pos_of_takeLine {t : Text} {pre : Bytes} {r r' : BufferedReader σ}
    (h : takeLine pre r = (.ok (some t), r')) : 0 < r'.lastTaken := by
  fun_induction takeLine pre r with
  | case1 pre r before sep after hs =>
    simp only [Prod.mk.injEq] at h
    rw [← h.2]
    simp only
    omega
  | case2 => simp at h
  | case3 => simp at h
  | case4 pre r _ r₁ _ hne =>
    simp only [Prod.mk.injEq] at h
    rw [← h.2]
    omega
  | case5 pre r _ r₁ _ ih => exact ih h

/-! ### Blocks -/

/-- Takes `missing` more octets of a block of which `got` have been taken. -/
def takeExact (missing : Nat) (got : Bytes) (r : BufferedReader σ) :
    Except (Stop ReceiveError) Bytes × BufferedReader σ :=
  if missing ≤ r.buffer.length then
    (.ok (got ++ r.buffer.take missing),
      { r with buffer := r.buffer.drop missing, lastTaken := got.length + missing })
  else
    match _h : r.fill with
    | (.error e, r') => (.error e, r')
    | (.ok false, r') =>
      let got := got ++ r.buffer
      (.error (.fault (.truncated (got.length + (missing - r.buffer.length)) got.length)),
        { r' with lastTaken := got.length })
    | (.ok true, r') => takeExact (missing - r.buffer.length) (got ++ r.buffer) r'
termination_by ByteSource.available r.source
decreasing_by exact available_lt_of_fill _h

/-- Reads exactly so many octets. -/
def readExact (count : Nat) (r : BufferedReader σ) :
    Except (Stop ReceiveError) Bytes × BufferedReader σ :=
  takeExact count [] { r with lastTaken := 0 }

/-- Takes all that is left behind the octets `got`. -/
def takeToEnd (got : Bytes) (r : BufferedReader σ) :
    Except (Stop ReceiveError) Bytes × BufferedReader σ :=
  match _h : r.fill with
  | (.error e, r') => (.error e, r')
  | (.ok false, r') =>
    (.ok (got ++ r.buffer), { r' with lastTaken := (got ++ r.buffer).length })
  | (.ok true, r') => takeToEnd (got ++ r.buffer) r'
termination_by ByteSource.available r.source
decreasing_by exact available_lt_of_fill _h

/-- Reads everything to the end. -/
def readToEnd (r : BufferedReader σ) : Except (Stop ReceiveError) Bytes × BufferedReader σ :=
  takeToEnd [] { r with lastTaken := 0 }

theorem remaining_fill_le (r : BufferedReader σ) : r.fill.2.remaining ≤ r.remaining := by
  rw [remaining_fill, remaining]
  omega

theorem remaining_takeExact_le (missing : Nat) (got : Bytes) (r : BufferedReader σ) :
    (takeExact missing got r).2.remaining ≤ r.remaining := by
  fun_induction takeExact missing got r with
  | case1 missing got r h =>
    simp only [remaining, List.length_drop]
    omega
  | case2 missing got r _ e r' h => simpa [h] using remaining_fill_le r
  | case3 missing got r _ r' h => simpa [h, remaining] using remaining_fill_le r
  | case4 missing got r _ r' h ih =>
    exact Nat.le_trans ih (by simpa [h] using remaining_fill_le r)

/-- A block that is returned has left the reader. -/
theorem remaining_of_takeExact {missing : Nat} {got bs : Bytes} {r r' : BufferedReader σ}
    (h : takeExact missing got r = (.ok bs, r')) :
    bs.length + r'.remaining ≤ got.length + r.remaining := by
  fun_induction takeExact missing got r with
  | case1 missing got r hle =>
    simp only [Prod.mk.injEq, Except.ok.injEq] at h
    obtain ⟨rfl, rfl⟩ := h
    simp only [remaining, List.length_append, List.length_take, List.length_drop]
    omega
  | case2 => simp at h
  | case3 => simp at h
  | case4 missing got r _ r₁ hf ih =>
    have h₁ := remaining_fill r
    rw [hf] at h₁
    have h₂ := ih h
    rw [List.length_append] at h₂
    simp only [remaining] at h₁ h₂ ⊢
    omega

theorem remaining_takeToEnd_le (got : Bytes) (r : BufferedReader σ) :
    (takeToEnd got r).2.remaining ≤ r.remaining := by
  fun_induction takeToEnd got r with
  | case1 got r e r' h => simpa [h] using remaining_fill_le r
  | case2 got r r' h => simpa [h, remaining] using remaining_fill_le r
  | case3 got r r' h ih => exact Nat.le_trans ih (by simpa [h] using remaining_fill_le r)

instance : ByteReader (BufferedReader σ) where
  readLine := readLine
  readExact := readExact
  readToEnd := readToEnd
  lastTaken r := r.lastTaken
  remaining := remaining
  remaining_readLine_le r := by
    have := remaining_takeLine [] { r with lastTaken := 0 }
    simp only [remaining, readLine] at this ⊢
    omega
  remaining_readLine_lt {r line r'} h := by
    have h₁ := remaining_takeLine [] { r with lastTaken := 0 }
    have h₂ := lastTaken_pos_of_takeLine h
    rw [show takeLine [] { r with lastTaken := 0 } = _ from h] at h₁
    simp only [remaining] at h₁ ⊢
    omega
  remaining_readExact_le n r := remaining_takeExact_le n [] { r with lastTaken := 0 }
  remaining_readExact h := by simpa [remaining] using remaining_of_takeExact h
  remaining_readToEnd_le r := remaining_takeToEnd_le [] { r with lastTaken := 0 }

end BufferedReader

end HttpWire
