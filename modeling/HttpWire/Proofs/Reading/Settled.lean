import HttpWire.Proofs.Steps
import HttpWire.Proofs.Text.Split
import HttpWire.Reading.Flat

/-!
# What a reader decides from

An operation on a string of octets is settled by the octets it took if it does the same on every
string that begins with them, and leaves there exactly what follows (`Settles`).

Taking a line is settled if there is a line feed.  Where the end of the string stands in for it,
nothing is left (`settles_or_exhausted`), and the answer may well change when the string goes on.
The operations that need more behind such a line must then fail, because nothing is there: a
header block needs its empty line, a chunk its data.  So whatever they answer without an error is
settled.
-/

namespace HttpWire

/-- A state in which a string of octets remains to be read. -/
class OnOctets (τ : Type) where
  rest : τ → Bytes
  withRest : Bytes → τ → τ

open OnOctets (rest withRest)

instance : OnOctets FlatReader where
  rest r := r.rest
  withRest y r := { r with rest := y }

instance {β τ : Type} [OnOctets τ] : OnOctets (β × τ) where
  rest s := rest s.2
  withRest y s := (s.1, withRest y s.2)

instance {τ : Type} [OnOctets τ] : OnOctets (ChunkedReader τ) where
  rest c := rest c.inner
  withRest y c := { c with inner := withRest y c.inner }

section

variable {α β τ τ₁ τ₂ τ₃ : Type} [OnOctets τ] [OnOctets τ₁] [OnOctets τ₂] [OnOctets τ₃]

/-- From a state `s` an operation leads to the answer `a` and the state `s'`, and the octets it
takes on the way are all that this depends on. -/
def Settles (f : τ₁ → α × τ₂) (s : τ₁) (a : α) (s' : τ₂) : Prop :=
  ∃ taken, rest s = taken ++ rest s' ∧ ∀ y, f (withRest (taken ++ y) s) = (a, withRest y s')

namespace Settles

variable {f : τ₁ → α × τ₂} {g : τ₂ → β × τ₃} {F : τ₁ → β × τ₃} {s : τ₁} {s' : τ₂} {s'' : τ₃}
  {a : α} {b : β}

/-- What goes on after a settled answer with a settled operation is settled. -/
theorem trans (hf : Settles f s a s') (hg : Settles g s' b s'')
    (hF : ∀ z y, f (withRest z s) = (a, withRest y s') → F (withRest z s) = g (withRest y s')) :
    Settles F s b s'' := by
  obtain ⟨t₁, hs, hf⟩ := hf
  obtain ⟨t₂, hs', hg⟩ := hg
  refine ⟨t₁ ++ t₂, ?_, ?_⟩
  · rw [hs, hs', List.append_assoc]
  · intro y
    rw [List.append_assoc, hF _ _ (hf (t₂ ++ y)), hg y]

/-- What takes nothing more after a settled answer is settled. -/
theorem answer (hf : Settles f s a s') (hrest : rest s'' = rest s')
    (hF : ∀ z y, f (withRest z s) = (a, withRest y s') →
      F (withRest z s) = (b, withRest y s'')) : Settles F s b s'' := by
  obtain ⟨taken, hs, hf⟩ := hf
  refine ⟨taken, ?_, ?_⟩
  · rw [hs, hrest]
  · intro y
    exact hF _ _ (hf y)

end Settles

end

/-! ### Lines and blocks -/

theorem Utf8.decodeFrom_ne_nil (s : Option Pending) (b : UInt8) (bs : Bytes) :
    decodeFrom s (b :: bs) ≠ [] := by
  -- An octet completes a character or leaves a sequence open, and an open sequence owes one.
  have hlead (b : UInt8) : (lead b).1 = [] → (lead b).2.isSome := by
    unfold lead
    dsimp only
    repeat' split
    all_goals simp
  induction bs generalizing s b with
  | nil =>
    rw [decodeFrom]
    intro h
    rw [List.append_eq_nil_iff] at h
    cases s with
    | none =>
      obtain ⟨p, hp⟩ := Option.isSome_iff_exists.mp (hlead b h.1)
      rw [step, hp] at h
      simp [decodeFrom] at h
    | some p =>
      simp only [step] at h
      split at h
      · split at h <;> simp [decodeFrom] at h
      · simp at h
  | cons c cs ih =>
    rw [decodeFrom]
    intro h
    exact ih _ _ (List.append_eq_nil_iff.mp h).2

/-- The text of a line that has octets has characters. -/
theorem LineCharset.ne_answer_nil (charset : LineCharset) (b : UInt8) (bs : Bytes) :
    charset.answer (b :: bs) ≠ .ok (some []) := by
  cases charset with
  | utf8 => simpa [answer, decode, Utf8.decodeLossy] using Utf8.decodeFrom_ne_nil none b bs
  | ascii =>
    simp only [answer, decode, Utf8.decodeAscii?]
    by_cases hall : ((b :: bs).all fun b => decide (b < 0x80)) = true
    · rw [if_pos hall]
      simp
    · rw [if_neg hall]
      simp

namespace FlatReader

variable {r r' : FlatReader}

/-- A line is settled, or it has used everything up and is not the empty line. -/
theorem settles_or_exhausted {answer : Except (Stop ReceiveError) (Option Text)}
    (h : ByteReader.readLine r = (answer, r')) :
    Settles ByteReader.readLine r answer r' ∨ r'.rest = [] ∧ answer ≠ .ok (some []) := by
  rw [show ByteReader.readLine r = r.readLine from rfl, readLine] at h
  cases hs : splitFirst (· == lineFeed) r.rest with
  | none =>
    rw [hs] at h
    obtain ⟨rfl, rfl⟩ := Prod.mk.injEq .. ▸ h
    -- Without a line feed the line is all that is left.
    refine .inr ⟨rfl, ?_⟩
    cases hr : r.rest with
    | nil => simp
    | cons b bs => simpa using r.charset.ne_answer_nil b bs
  | some parts =>
    obtain ⟨before, sep, after⟩ := parts
    rw [hs] at h
    obtain ⟨rfl, rfl⟩ := Prod.mk.injEq .. ▸ h
    refine .inl ⟨before ++ [sep], ?_, ?_⟩
    · show r.rest = before ++ [sep] ++ after
      rw [splitFirst_eq_some hs, List.append_assoc]
      rfl
    · intro y
      obtain ⟨-, hsep, hb⟩ := splitFirst_eq_some_iff.mp hs
      have hcut : splitFirst (· == lineFeed) (before ++ [sep] ++ y) = some (before, sep, y) := by
        rw [List.append_assoc]
        exact splitFirst_append_cons hb hsep
      show readLine { r with rest := before ++ [sep] ++ y } = _
      rw [readLine, hcut]
      rfl

theorem settles_readExact {n : Nat} {bs : Bytes} (h : ByteReader.readExact n r = (.ok bs, r')) :
    Settles (ByteReader.readExact n) r (.ok bs) r' := by
  simp only [show ByteReader.readExact n r = r.readExact n from rfl, readExact,
    Prod.mk.injEq] at h
  obtain ⟨hbs, rfl⟩ := h
  split at hbs
  · next hle =>
    cases hbs
    have hlen : (r.rest.take n).length = n := List.length_take_of_le hle
    refine ⟨r.rest.take n, (List.take_append_drop n r.rest).symm, ?_⟩
    intro y
    show readExact n { r with rest := r.rest.take n ++ y } = _
    have htake : (r.rest.take n ++ y).take n = r.rest.take n := List.take_left' hlen
    have hdrop : (r.rest.take n ++ y).drop n = y := List.drop_left' hlen
    have hle' : n ≤ (r.rest.take n ++ y).length := by
      rw [List.length_append, hlen]
      omega
    simp only [readExact, if_pos hle', htake, hdrop, Nat.min_eq_left hle, Nat.min_eq_left hle']
    rfl
  · cases hbs

end FlatReader

/-! ### Header blocks -/

namespace Headers

/-- Where nothing is left there is no header block. -/
theorem ne_ok_readBlock_of_exhausted {r : FlatReader} (hr : r.rest = []) (taken : Nat)
    (h : Headers) (length : Nat) : (readBlock taken h r).1 ≠ .ok length := by
  rw [readBlock_eq, show ByteReader.readLine r = r.readLine from rfl, FlatReader.readLine, hr]
  simp [splitFirst]

theorem settles_readBlock {taken length : Nat} {h h' : Headers} {r r' : FlatReader}
    (hb : readBlock taken h r = (.ok length, h', r')) :
    Settles (readBlock taken h) r (.ok length) (h', r') := by
  fun_induction readBlock taken h r with
  | case1 => simp at hb
  | case2 => simp at hb
  | case3 taken h r r₁ hl =>
    rcases FlatReader.settles_or_exhausted hl with hs | ⟨-, hne⟩
    · simp only [Prod.mk.injEq, Except.ok.injEq] at hb
      obtain ⟨rfl, rfl, rfl⟩ := hb
      refine hs.answer rfl ?_
      intro z y hz
      rw [readBlock_eq, hz]
      rfl
    · exact absurd rfl hne
  | case4 => simp at hb
  | case5 taken h r line r₁ hne hl f hf ih =>
    rcases FlatReader.settles_or_exhausted hl with hs | ⟨hend, -⟩
    · refine hs.trans (ih hb) ?_
      intro z y hz
      rw [readBlock_eq, hz]
      cases line with
      | nil => exact absurd rfl hne
      | cons c cs => simp only [hf]; rfl
    -- A line that has used everything up has no empty line behind it.
    · exact absurd (congrArg Prod.fst hb) (ne_ok_readBlock_of_exhausted hend _ _ _)

end Headers

/-! ### Chunked bodies -/

namespace ChunkedReader

variable {c c' : ChunkedReader FlatReader} {y : Bytes}

@[simp] theorem inner_withRest : (withRest y c).inner = withRest y c.inner := rfl

@[simp] theorem keepTrailers_withRest : (withRest y c).keepTrailers = c.keepTrailers := rfl

@[simp] theorem trailers_withRest : (withRest y c).trailers = c.trailers := rfl

@[simp] theorem finished_withRest : (withRest y c).finished = c.finished := rfl

@[simp] theorem lastTaken_withRest : (withRest y c).lastTaken = c.lastTaken := rfl

/-- What the inner reader has settled is settled when it is counted. -/
theorem settles_counted {α : Type} {f : FlatReader → α × FlatReader} {a : α} {r' : FlatReader}
    (h : Settles f c.inner a r') :
    Settles (fun c => ((f c.inner).1, c.counted (f c.inner).2)) c a (c.counted r') := by
  obtain ⟨taken, hrest, hf⟩ := h
  refine ⟨taken, hrest, ?_⟩
  intro y
  simp only [inner_withRest, hf y]
  rfl

theorem settles_readTrailers {x : Option Bytes} (h : c.readTrailers = (.ok x, c')) :
    Settles readTrailers c (.ok x) c' := by
  rw [readTrailers] at h
  rcases hb : Headers.readBlock 0 (if c.keepTrailers then c.trailers else {}) c.inner with
    ⟨_ | length, trailers, r'⟩
  · rw [hb] at h
    simp at h
  · rw [hb] at h
    simp only [Prod.mk.injEq, Except.ok.injEq] at h
    obtain ⟨rfl, rfl⟩ := h
    obtain ⟨taken, hrest, hf⟩ := Headers.settles_readBlock hb
    refine ⟨taken, hrest, ?_⟩
    intro y
    simp only [readTrailers, keepTrailers_withRest, trailers_withRest, inner_withRest, hf y]
    rfl

theorem settles_readChunkEnd {chunk : Bytes} {x : Option Bytes}
    (h : readChunkEnd chunk c = (.ok x, c')) : Settles (readChunkEnd chunk) c (.ok x) c' := by
  rw [readChunkEnd] at h
  rcases hl : ByteReader.readLine c.inner with ⟨answer, r'⟩
  rw [hl] at h
  -- Only the empty line ends a chunk, and it is settled.
  rcases answer with e | _ | ⟨d, ds⟩
  all_goals simp only [Prod.mk.injEq, Except.ok.injEq, reduceCtorEq, false_and] at h
  obtain ⟨rfl, rfl⟩ := h
  rcases FlatReader.settles_or_exhausted hl with hs | ⟨-, hne⟩
  · obtain ⟨taken, hrest, hf⟩ := hs
    refine ⟨taken, hrest, ?_⟩
    intro y
    simp only [readChunkEnd, inner_withRest, hf y]
    rfl
  · exact absurd rfl hne

theorem settles_readChunkData {size : Nat} {x : Option Bytes}
    (h : readChunkData size c = (.ok x, c')) : Settles (readChunkData size) c (.ok x) c' := by
  rw [readChunkData] at h
  rcases hr : ByteReader.readExact size c.inner with ⟨e | chunk, r'⟩
  · rw [hr] at h
    simp at h
  · rw [hr] at h
    refine (settles_counted (FlatReader.settles_readExact hr)).trans (settles_readChunkEnd h) ?_
    intro z y hz
    rcases hz' : ByteReader.readExact size (withRest z c).inner with ⟨answer, r''⟩
    simp only [hz', Prod.mk.injEq] at hz
    obtain ⟨rfl, hz⟩ := hz
    simp only [readChunkData, hz', hz]

/-- What is read behind a line that announces a size: the trailers, or the data of a chunk. -/
def readBehind {ρ : Type} [ByteReader ρ] :
    Nat → ChunkedReader ρ → Except (Stop ReceiveError) (Option Bytes) × ChunkedReader ρ
  | 0, c => c.readTrailers
  | size + 1, c => readChunkData (size + 1) c

theorem readBehind_of_pos {ρ : Type} [ByteReader ρ] {c : ChunkedReader ρ} {size : Nat}
    (h : 0 < size) : readBehind size c = readChunkData size c := by
  cases size with
  | zero => cases h
  | succ size => rfl

theorem nextChunk_of_sizeLine {ρ : Type} [ByteReader ρ] {c : ChunkedReader ρ} {line : Text}
    {size : Nat} (hc : c.finished = false)
    (hl : (ByteReader.readLine c.inner).1 = .ok (some line)) (hsize : chunkSize line = .ok size) :
    c.nextChunk = readBehind size (c.counted (ByteReader.readLine c.inner).2) := by
  rcases h : ByteReader.readLine c.inner with ⟨answer, r'⟩
  rw [h] at hl
  obtain rfl : answer = _ := hl
  rw [nextChunk, if_neg (by simp [hc]), h]
  simp only [hsize]
  cases size <;> rfl

/-- A chunk or the end of a body comes from a line that announces a size. -/
theorem exists_sizeLine {ρ : Type} [ByteReader ρ] {c c' : ChunkedReader ρ} {x : Option Bytes}
    (hc : c.finished = false) (h : c.nextChunk = (.ok x, c')) :
    ∃ line size, (ByteReader.readLine c.inner).1 = .ok (some line) ∧ chunkSize line = .ok size := by
  rw [nextChunk, if_neg (by simp [hc])] at h
  rcases hl : ByteReader.readLine c.inner with ⟨e | _ | line, r'⟩
  · simp [hl] at h
  · simp [hl] at h
  · cases hsize : chunkSize line with
    | error e => simp [hl, hsize] at h
    | ok size => exact ⟨line, size, rfl, hsize⟩

theorem settles_readBehind {size : Nat} {x : Option Bytes} (h : readBehind size c = (.ok x, c')) :
    Settles (readBehind size) c (.ok x) c' := by
  cases size with
  | zero => exact settles_readTrailers h
  | succ size => exact settles_readChunkData h

/-- Where nothing is left there is neither a trailer block nor a chunk. -/
theorem ne_ok_readBehind_of_exhausted (hc : c.inner.rest = []) (size : Nat) (x : Option Bytes) :
    (readBehind size c).1 ≠ .ok x := by
  cases size with
  | zero =>
    have hb := Headers.ne_ok_readBlock_of_exhausted hc 0 (if c.keepTrailers then c.trailers else {})
    rw [readBehind, readTrailers]
    rcases h : Headers.readBlock 0 (if c.keepTrailers then c.trailers else {}) c.inner with
      ⟨_ | length, trailers, r'⟩
    · simp
    · exact absurd (by rw [h]) (hb length)
  | succ size =>
    rw [readBehind, readChunkData, show ByteReader.readExact (size + 1) c.inner =
      c.inner.readExact (size + 1) from rfl, FlatReader.readExact, hc]
    simp

theorem settles_nextChunk {x : Option Bytes} (h : c.nextChunk = (.ok x, c')) :
    Settles nextChunk c (.ok x) c' := by
  cases hc : c.finished with
  | true =>
    rw [nextChunk, if_pos hc] at h
    cases h
    refine ⟨[], rfl, ?_⟩
    intro y
    rw [nextChunk, finished_withRest, if_pos hc]
    rfl
  | false =>
    obtain ⟨line, size, hl, hsize⟩ := exists_sizeLine hc h
    rw [nextChunk_of_sizeLine hc hl hsize] at h
    rcases hr : ByteReader.readLine c.inner with ⟨answer, r'⟩
    rw [hr] at hl h
    obtain rfl : answer = _ := hl
    rcases FlatReader.settles_or_exhausted hr with hs | ⟨hend, -⟩
    · refine (settles_counted hs).trans (settles_readBehind h) ?_
      intro z y hz
      obtain ⟨hl', hc'⟩ := Prod.mk.injEq .. ▸ hz
      rw [nextChunk_of_sizeLine (c := withRest z c) hc hl' hsize]
      exact congrArg (readBehind size) hc'
    -- A size line that has used everything up has neither data nor trailers behind it.
    · exact absurd (congrArg Prod.fst h) (ne_ok_readBehind_of_exhausted hend size x)

theorem settles_takeToEnd {got payload : Bytes} (h : takeToEnd got c = (.ok payload, c')) :
    Settles (takeToEnd got) c (.ok payload) c' := by
  fun_induction takeToEnd got c with
  | case1 => simp at h
  | case2 got c chunk c₁ hc ih =>
    refine (settles_nextChunk hc).trans (ih h) ?_
    intro z y hz
    rw [takeToEnd_eq, hz]
  | case3 got c c₁ hc =>
    cases h
    refine (settles_nextChunk hc).answer rfl ?_
    intro z y hz
    rw [takeToEnd_eq, hz]

end ChunkedReader

end HttpWire
