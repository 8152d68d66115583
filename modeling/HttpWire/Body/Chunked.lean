import HttpWire.Field.Block
import HttpWire.Field.Parameterized

/-!
# The chunked coding

A chunked body is a sequence of chunks, each a line with its size in hexadecimal, so many octets,
and an empty line; then a line with size zero and a header block of trailers.  A semicolon in a
size line starts extensions, which are passed over.

`ChunkedReader` is a reader over a reader: it hands out the payload and keeps the framing to
itself.  Its lines are lines of the payload, wherever the chunks are cut.  A block of a given
length is not offered.
-/

namespace HttpWire

/-! ### Size lines -/

/-- One more digit behind a number of 64 bits. -/
def chunkDigit (line : Text) (size : Nat) (c : Char) : Except ChunkFault Nat :=
  match Text.hexValue? c with
  | none => .error (.badSizeLine line)
  | some d =>
    if size * 16 + d < UInt64.size then .ok (size * 16 + d) else .error .sizeOverflow

/-- The size that a size line announces. -/
def chunkSize (line : Text) : Except ChunkFault Nat :=
  let digits := Text.trimPadding (cutFirst (· == ';') line).1
  if digits.isEmpty then .error .missingSize else digits.foldlM (chunkDigit line) 0

/-! ### The reader -/

/-- A reader of the payload of a chunked body that `inner` reads. -/
structure ChunkedReader (ρ : Type) where
  inner : ρ
  /-- Whether trailers are kept. -/
  keepTrailers : Bool := false
  trailers : Headers := {}
  /-- Payload that has been read but not handed out. -/
  pending : Bytes := []
  /-- Whether the last chunk and the trailers have been read. -/
  finished : Bool := false
  lastTaken : Nat := 0

namespace ChunkedReader

variable {ρ : Type} [ByteReader ρ]

/-- Goes on with the inner reader and counts what its last operation took. -/
def counted (r : ChunkedReader ρ) (inner : ρ) : ChunkedReader ρ :=
  { r with inner, lastTaken := r.lastTaken + ByteReader.lastTaken inner }

/-- Reads the trailers behind the last chunk. -/
def readTrailers (r : ChunkedReader ρ) :
    Except (Stop ReceiveError) (Option Bytes) × ChunkedReader ρ :=
  let (result, trailers, inner) :=
    Headers.readBlock 0 (if r.keepTrailers then r.trailers else {}) r.inner
  let r := { r with inner, trailers := if r.keepTrailers then trailers else r.trailers }
  match result with
  | .error e => (.error e, r)
  | .ok length => (.ok none, { r with finished := true, lastTaken := r.lastTaken + length })

/-- Reads the empty line behind the octets of a chunk. -/
def readChunkEnd (chunk : Bytes) (r : ChunkedReader ρ) :
    Except (Stop ReceiveError) (Option Bytes) × ChunkedReader ρ :=
  match ByteReader.readLine r.inner with
  | (.error e, inner) => (.error e, { r with inner })
  | (.ok (some []), inner) => (.ok (some chunk), r.counted inner)
  | (.ok (some _), inner) => (.error (.fault (.chunk .missingLineBreak)), r.counted inner)
  | (.ok none, inner) => (.error (.fault (.truncated 2 0)), r.counted inner)

/-- Reads so many octets of a chunk and its end. -/
def readChunkData (size : Nat) (r : ChunkedReader ρ) :
    Except (Stop ReceiveError) (Option Bytes) × ChunkedReader ρ :=
  match ByteReader.readExact size r.inner with
  | (.error e, inner) => (.error e, { r with inner })
  | (.ok chunk, inner) => readChunkEnd chunk (r.counted inner)

/-- Reads the next chunk; `none` behind the last one. -/
def nextChunk (r : ChunkedReader ρ) :
    Except (Stop ReceiveError) (Option Bytes) × ChunkedReader ρ :=
  if r.finished then (.ok none, r)
  else
    match ByteReader.readLine r.inner with
    | (.error e, inner) => (.error e, { r with inner })
    | (.ok none, inner) => (.error (.fault (.truncated 1 0)), r.counted inner)
    | (.ok (some line), inner) =>
      match chunkSize line with
      | .error e => (.error (.fault (.chunk e)), r.counted inner)
      | .ok 0 => (r.counted inner).readTrailers
      | .ok (size + 1) => (r.counted inner).readChunkData (size + 1)

/-! ### What chunks take -/

theorem remaining_readTrailers_le (r : ChunkedReader ρ) :
    ByteReader.remaining r.readTrailers.2.inner ≤ ByteReader.remaining r.inner := by
  have h := Headers.remaining_readBlock_le 0 (if r.keepTrailers then r.trailers else {}) r.inner
  simp only [readTrailers]
  split <;> exact h

theorem remaining_readChunkEnd_le (chunk : Bytes) (r : ChunkedReader ρ) :
    ByteReader.remaining (readChunkEnd chunk r).2.inner ≤ ByteReader.remaining r.inner := by
  have h := ByteReader.remaining_readLine_le r.inner
  unfold readChunkEnd
  split <;> next hr => simpa [hr, counted] using h

theorem remaining_readChunkData_le (size : Nat) (r : ChunkedReader ρ) :
    ByteReader.remaining (readChunkData size r).2.inner ≤ ByteReader.remaining r.inner := by
  have h := ByteReader.remaining_readExact_le size r.inner
  unfold readChunkData
  split
  · next hr => simpa [hr] using h
  · next hr =>
    refine Nat.le_trans (remaining_readChunkEnd_le _ _) ?_
    simpa [hr, counted] using h

theorem length_of_readChunkData {size : Nat} {r r' : ChunkedReader ρ} {chunk : Bytes}
    (h : readChunkData size r = (.ok (some chunk), r')) :
    chunk.length + ByteReader.remaining r'.inner ≤ ByteReader.remaining r.inner := by
  unfold readChunkData at h
  split at h
  · simp at h
  · next data inner hr =>
    have h₁ := ByteReader.remaining_readExact hr
    have h₂ := remaining_readChunkEnd_le data (r.counted inner)
    rw [h] at h₂
    have h₃ : chunk = data := by
      unfold readChunkEnd at h
      split at h <;> simp_all
    subst h₃
    simp only [counted] at h₂
    omega

theorem remaining_nextChunk_le (r : ChunkedReader ρ) :
    ByteReader.remaining r.nextChunk.2.inner ≤ ByteReader.remaining r.inner := by
  have h := ByteReader.remaining_readLine_le r.inner
  unfold nextChunk
  split
  · exact Nat.le_refl _
  · split
    · next hr => simpa [hr] using h
    · next hr => simpa [hr, counted] using h
    · next hr =>
      rw [hr] at h
      split
      · simpa [counted] using h
      · exact Nat.le_trans (remaining_readTrailers_le _) h
      · exact Nat.le_trans (remaining_readChunkData_le _ _) h

/-- A chunk takes its octets and a size line at least. -/
theorem length_lt_of_nextChunk {r r' : ChunkedReader ρ} {chunk : Bytes}
    (h : r.nextChunk = (.ok (some chunk), r')) :
    chunk.length + ByteReader.remaining r'.inner < ByteReader.remaining r.inner := by
  unfold nextChunk at h
  split at h
  · simp at h
  · split at h
    · simp at h
    · simp at h
    · next hr =>
      have h₁ := ByteReader.remaining_readLine_lt hr
      split at h
      · simp at h
      · simp only [readTrailers] at h
        split at h <;> simp at h
      · have h₂ := length_of_readChunkData h
        simp only [counted] at h₂
        omega

@[simp] theorem pending_nextChunk (r : ChunkedReader ρ) : r.nextChunk.2.pending = r.pending := by
  unfold nextChunk
  split
  · rfl
  · split
    · rfl
    · rfl
    · split
      · rfl
      · simp only [readTrailers]
        split <;> rfl
      · unfold readChunkData
        split
        · rfl
        · unfold readChunkEnd
          split <;> rfl

/-! ### Operations -/

/-- Takes a line from the pending payload, reading chunks until there is one. -/
def takeLine (r : ChunkedReader ρ) :
    Except (Stop ReceiveError) (Option Text) × ChunkedReader ρ :=
  match splitFirst (· == lineFeed) r.pending with
  | some (before, _, after) =>
    (.ok (some (Utf8.decodeLossy (dropReturn before))), { r with pending := after })
  | none =>
    match _h : r.nextChunk with
    | (.error e, r') => (.error e, r')
    | (.ok (some chunk), r') => takeLine { r' with pending := r'.pending ++ chunk }
    | (.ok none, r') =>
      if r'.pending.isEmpty then (.ok none, r')
      -- The payload ends without a line feed, so a carriage return at its end is part of the line.
      else (.ok (some (Utf8.decodeLossy r'.pending)), { r' with pending := [] })
termination_by ByteReader.remaining r.inner
decreasing_by
  have := length_lt_of_nextChunk _h
  omega

/-- Reads the next line of the payload. -/
def readLine (r : ChunkedReader ρ) : Except (Stop ReceiveError) (Option Text) × ChunkedReader ρ :=
  takeLine { r with lastTaken := 0 }

/-- Adds all chunks that are left to `got`. -/
def takeToEnd (got : Bytes) (r : ChunkedReader ρ) :
    Except (Stop ReceiveError) Bytes × ChunkedReader ρ :=
  match _h : r.nextChunk with
  | (.error e, r') => (.error e, r')
  | (.ok (some chunk), r') => takeToEnd (got ++ chunk) r'
  | (.ok none, r') => (.ok got, r')
termination_by ByteReader.remaining r.inner
decreasing_by
  have := length_lt_of_nextChunk _h
  omega

/-- Reads the rest of the payload.  If that fails, the payload read so far is lost. -/
def readToEnd (r : ChunkedReader ρ) : Except (Stop ReceiveError) Bytes × ChunkedReader ρ :=
  takeToEnd r.pending { r with pending := [], lastTaken := 0 }

/-- Refuses to read a block of a given length. -/
def readExact (count : Nat) (r : ChunkedReader ρ) :
    Except (Stop ReceiveError) Bytes × ChunkedReader ρ :=
  (.error (.fault (.unsupported (.exactlyOfChunked count))), { r with lastTaken := 0 })

/-- Takes the trailers read so far. -/
def releaseTrailers (r : ChunkedReader ρ) : Headers × ChunkedReader ρ :=
  (r.trailers, { r with trailers := {} })

/-! ### As a reader -/

/-- The payload at hand and what the inner reader can still read. -/
def remaining (r : ChunkedReader ρ) : Nat :=
  r.pending.length + ByteReader.remaining r.inner

theorem remaining_takeLine_le (r : ChunkedReader ρ) : r.takeLine.2.remaining ≤ r.remaining := by
  have step (r : ChunkedReader ρ) {a r'} (h : r.nextChunk = (a, r')) :
      r'.remaining ≤ r.remaining := by
    have h₁ := remaining_nextChunk_le r
    have h₂ := pending_nextChunk r
    rw [h] at h₁ h₂
    simp only at h₁ h₂
    simp only [remaining, h₂]
    omega
  fun_induction takeLine r with
  | case1 r before _ after h =>
    have := length_lt_of_splitFirst h
    simp only [remaining]
    omega
  | case2 r _ e r' h => exact step r h
  | case3 r _ chunk r' h ih =>
    refine Nat.le_trans ih ?_
    have h₁ := length_lt_of_nextChunk h
    have h₂ := pending_nextChunk r
    rw [h] at h₂
    simp only at h₂
    simp only [remaining, List.length_append, h₂]
    omega
  | case4 r _ r' h _ => exact step r h
  | case5 r _ r' h _ =>
    refine Nat.le_trans ?_ (step r h)
    simp only [remaining, List.length_nil]
    omega

theorem remaining_takeLine_lt {r r' : ChunkedReader ρ} {t : Text}
    (h : r.takeLine = (.ok (some t), r')) : r'.remaining < r.remaining := by
  fun_induction takeLine r with
  | case1 r before _ after hs =>
    simp only [Prod.mk.injEq] at h
    rw [← h.2]
    have := length_lt_of_splitFirst hs
    simp only [remaining]
    omega
  | case2 => simp at h
  | case3 r _ chunk r₁ hc ih =>
    refine Nat.lt_of_lt_of_le (ih h) ?_
    have h₁ := length_lt_of_nextChunk hc
    have h₂ := pending_nextChunk r
    rw [hc] at h₂
    simp only at h₂
    simp only [remaining, List.length_append, h₂]
    omega
  | case4 => simp at h
  | case5 r _ r₁ hc hne =>
    simp only [Prod.mk.injEq] at h
    rw [← h.2]
    have h₁ := remaining_nextChunk_le r
    have h₂ := pending_nextChunk r
    rw [hc] at h₁ h₂
    simp only at h₁ h₂
    have h₃ : 0 < r.pending.length := by
      rw [h₂] at hne
      cases hp : r.pending with
      | nil => simp [hp] at hne
      | cons => simp
    simp only [remaining, List.length_nil]
    omega

theorem remaining_takeToEnd_le (got : Bytes) (r : ChunkedReader ρ) :
    (takeToEnd got r).2.remaining ≤ r.remaining := by
  have step (r : ChunkedReader ρ) {a r'} (h : r.nextChunk = (a, r')) :
      r'.remaining ≤ r.remaining := by
    have h₁ := remaining_nextChunk_le r
    have h₂ := pending_nextChunk r
    rw [h] at h₁ h₂
    simp only at h₁ h₂
    simp only [remaining, h₂]
    omega
  fun_induction takeToEnd got r with
  | case1 _ r e r' h => exact step r h
  | case2 _ r chunk r' h ih => exact Nat.le_trans ih (step r h)
  | case3 _ r r' h => exact step r h

instance : ByteReader (ChunkedReader ρ) where
  readLine := readLine
  readExact := readExact
  readToEnd := readToEnd
  lastTaken r := r.lastTaken
  remaining := remaining
  remaining_readLine_le r := remaining_takeLine_le { r with lastTaken := 0 }
  remaining_readLine_lt {r _ _} h :=
    remaining_takeLine_lt (r := { r with lastTaken := 0 }) h
  remaining_readExact_le n r := by simp [readExact, remaining]
  remaining_readExact h := by simp [readExact] at h
  remaining_readToEnd_le r := by
    refine Nat.le_trans (remaining_takeToEnd_le _ _) ?_
    simp only [remaining, List.length_nil]
    omega

end ChunkedReader

end HttpWire
