import HttpWire.Reading.Reader
import HttpWire.Text.Split

/-!
# The reader over a string of octets

All octets are at hand, so every operation is a single look at what is left.  It is what any
reader should amount to when its source delivers the same octets.
-/

namespace HttpWire

/-- A reader over octets in memory. -/
structure FlatReader where
  rest : Bytes
  charset : LineCharset := .ascii
  lastTaken : Nat := 0

namespace FlatReader

/-- Reads the next line. -/
def readLine (r : FlatReader) : Except (Stop ReceiveError) (Option Text) × FlatReader :=
  match splitFirst (· == lineFeed) r.rest with
  | some (before, _, after) =>
    (r.charset.answer (dropReturn before),
      { r with rest := after, lastTaken := before.length + 1 })
  | none =>
    (if r.rest.isEmpty then .ok none else r.charset.answer r.rest,
      { r with rest := [], lastTaken := r.rest.length })

/-- Reads exactly so many octets. -/
def readExact (count : Nat) (r : FlatReader) : Except (Stop ReceiveError) Bytes × FlatReader :=
  (if count ≤ r.rest.length then .ok (r.rest.take count)
    else .error (.fault (.truncated count r.rest.length)),
    { r with rest := r.rest.drop count, lastTaken := min count r.rest.length })

/-- Reads everything to the end. -/
def readToEnd (r : FlatReader) : Except (Stop ReceiveError) Bytes × FlatReader :=
  (.ok r.rest, { r with rest := [], lastTaken := r.rest.length })

/-- A line that is returned has taken something. -/
theorem length_rest_readLine_lt {r r' : FlatReader} {t : Text}
    (h : r.readLine = (.ok (some t), r')) : r'.rest.length < r.rest.length := by
  unfold readLine at h
  split at h
  · next hs =>
    simp only [Prod.mk.injEq] at h
    rw [← h.2]
    exact length_lt_of_splitFirst hs
  · next hs =>
    simp only [Prod.mk.injEq] at h
    rw [← h.2]
    cases hr : r.rest with
    | nil => simp [hr] at h
    | cons b bs => simp

theorem length_rest_readLine_le (r : FlatReader) : r.readLine.2.rest.length ≤ r.rest.length := by
  unfold readLine
  split
  · next hs => exact Nat.le_of_lt (length_lt_of_splitFirst hs)
  · simp

instance : ByteReader FlatReader where
  readLine := readLine
  readExact := readExact
  readToEnd := readToEnd
  lastTaken r := r.lastTaken
  remaining r := r.rest.length
  remaining_readLine_le := length_rest_readLine_le
  remaining_readLine_lt := length_rest_readLine_lt
  remaining_readExact_le n r := by simp [readExact]
  remaining_readExact {n r bs r'} h := by
    simp only [readExact, Prod.mk.injEq] at h
    obtain ⟨h, rfl⟩ := h
    split at h
    · cases h
      simp only [List.length_take, List.length_drop]
      omega
    · cases h
  remaining_readToEnd_le r := by simp [readToEnd]

end FlatReader

end HttpWire
