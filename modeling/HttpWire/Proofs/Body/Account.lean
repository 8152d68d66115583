import HttpWire.Body.Chunked
import HttpWire.Proofs.Reading.Account
import HttpWire.Wire.Peer

/-!
# What readers count

A reader of chunks counts what it removes from the reader below: every line, every block and the
trailers, one after the other.  If one of them fails, that one is not counted, although it may have
removed octets (`ChunkedReader.Accounts`).  So the count is right behind every operation that
succeeds and behind the faults of the coding itself, and `lastTaken_account` says for both kinds of
readers exactly what is left out otherwise.  In `lastTaken_omits` octets are.
-/

namespace HttpWire

/-- A fault of the coding itself, found in what has been read without a failure. -/
inductive CodingFault : Stop ReceiveError → Prop
  | chunk {fault : ChunkFault} : CodingFault (.fault (.chunk fault))
  /-- There is no line that announces a size. -/
  | noSizeLine : CodingFault (.fault (.truncated 1 0))
  /-- There is no line behind the octets of a chunk. -/
  | noChunkEnd : CodingFault (.fault (.truncated 2 0))
  | unsupported {read : UnsupportedRead} : CodingFault (.fault (.unsupported read))

/-- A line, a block or a header block fails, and leads from one reader to another. -/
inductive Fails {ρ : Type} [ByteReader ρ] (e : Stop ReceiveError) : ρ → ρ → Prop
  | line {r r'} (h : ByteReader.readLine r = (.error e, r')) : Fails e r r'
  | exact {r r' n} (h : ByteReader.readExact n r = (.error e, r')) : Fails e r r'
  | block {r r' headers headers'}
    (h : Headers.readBlock 0 headers r = (.error e, headers', r')) : Fails e r r'

/-- The error of an outcome. -/
inductive Outcome.HasError (e : Stop ReceiveError) : Outcome → Prop
  | line : HasError e (.line (.error e))
  | octets : HasError e (.octets (.error e))

section

variable {ρ : Type} [ByteReader ρ]

/-- A header block that is read is as long as what it removes. -/
theorem KeepsCount.readBlock (hρ : KeepsCount ρ) {taken n : Nat} {headers headers' : Headers}
    {r r' : ρ} (h : Headers.readBlock taken headers r = (.ok n, headers', r')) :
    n + ByteReader.remaining r' = taken + ByteReader.remaining r := by
  fun_induction Headers.readBlock taken headers r with
  | case1 => cases h
  | case2 => cases h
  | case3 taken headers r r₁ hl =>
    have hcount := hρ.readLine r
    rw [hl] at hcount
    cases h
    dsimp only at hcount
    omega
  | case4 => cases h
  | case5 taken headers r line r₁ hne hl field hfield ih =>
    have hcount := hρ.readLine r
    rw [hl] at hcount
    have hrest := ih h
    dsimp only at hcount
    omega

namespace ChunkedReader

variable {α : Type} {c c₁ c' : ChunkedReader ρ}

/-- An answer and the reader behind it, which has counted all that it has removed from the inner
reader since `c`, or all up to what failed there. -/
inductive Accounts (c : ChunkedReader ρ) :
    Except (Stop ReceiveError) α × ChunkedReader ρ → Prop
  | whole {answer c'} (hanswer : ∀ e, answer = .error e → CodingFault e)
    (hcount : c'.lastTaken + ByteReader.remaining c'.inner =
      c.lastTaken + ByteReader.remaining c.inner) : Accounts c (answer, c')
  | upTo {e c' q} (hfails : Fails e q c'.inner)
    (hcount : c'.lastTaken + ByteReader.remaining q =
      c.lastTaken + ByteReader.remaining c.inner) : Accounts c (.error e, c')

namespace Accounts

theorem ok {a : α} (hcount : c'.lastTaken + ByteReader.remaining c'.inner =
    c.lastTaken + ByteReader.remaining c.inner) : Accounts c (.ok a, c') := by
  refine .whole (fun e he => ?_) hcount
  cases he

theorem fault {e : Stop ReceiveError} (hfault : CodingFault e)
    (hcount : c'.lastTaken + ByteReader.remaining c'.inner =
      c.lastTaken + ByteReader.remaining c.inner) : Accounts (α := α) c (.error e, c') := by
  refine .whole (fun e' he' => ?_) hcount
  cases he'
  exact hfault

/-- From a reader that has counted all so far the account goes on. -/
theorem trans {x : Except (Stop ReceiveError) α × ChunkedReader ρ} (h : Accounts c₁ x)
    (hcount : c₁.lastTaken + ByteReader.remaining c₁.inner =
      c.lastTaken + ByteReader.remaining c.inner) : Accounts c x := by
  cases h with
  | whole hanswer hcount' => exact .whole hanswer (hcount'.trans hcount)
  | upTo hfails hcount' => exact .upTo hfails (hcount'.trans hcount)

/-- What has been answered without an error is counted. -/
theorem count_of_ok {a : α} (h : Accounts c (.ok a, c')) :
    c'.lastTaken + ByteReader.remaining c'.inner =
      c.lastTaken + ByteReader.remaining c.inner := by
  cases h with
  | whole _ hcount => exact hcount

/-- A failure is that of another answer too. -/
theorem error {β : Type} {e : Stop ReceiveError} (h : Accounts (α := α) c (.error e, c')) :
    Accounts (α := β) c (.error e, c') := by
  cases h with
  | whole hanswer hcount => exact .fault (hanswer e rfl) hcount
  | upTo hfails hcount => exact .upTo hfails hcount

end Accounts

/-! ### Chunks -/

/-- Counting an operation of the inner reader that removes what it counts. -/
theorem counted_account {q : ρ}
    (h : ByteReader.lastTaken q + ByteReader.remaining q = ByteReader.remaining c.inner) :
    (c.counted q).lastTaken + ByteReader.remaining (c.counted q).inner =
      c.lastTaken + ByteReader.remaining c.inner := by
  show c.lastTaken + ByteReader.lastTaken q + ByteReader.remaining q = _
  omega

/-- A line is counted as what it removes, whatever it is. -/
theorem counted_readLine (hρ : KeepsCount ρ) {q : ρ}
    {answer : Except (Stop ReceiveError) (Option Text)}
    (h : ByteReader.readLine c.inner = (answer, q)) :
    (c.counted q).lastTaken + ByteReader.remaining (c.counted q).inner =
      c.lastTaken + ByteReader.remaining c.inner := by
  have hcount := hρ.readLine c.inner
  rw [h] at hcount
  exact counted_account hcount

theorem accounts_readTrailers (hρ : KeepsCount ρ) (c : ChunkedReader ρ) :
    Accounts c c.readTrailers := by
  rcases hr : Headers.readBlock 0 (if c.keepTrailers then c.trailers else {}) c.inner with
    ⟨e | length, headers, inner⟩
  · simp only [readTrailers, hr]
    exact .upTo (.block hr) rfl
  · have hcount := hρ.readBlock hr
    simp only [readTrailers, hr]
    refine .ok ?_
    show c.lastTaken + length + ByteReader.remaining inner = _
    omega

theorem accounts_readChunkEnd (hρ : KeepsCount ρ) (chunk : Bytes) (c : ChunkedReader ρ) :
    Accounts c (readChunkEnd chunk c) := by
  unfold readChunkEnd
  split
  · next hl => exact .upTo (.line hl) rfl
  · next hl => exact .ok (counted_readLine hρ hl)
  · next hl => exact .fault .chunk (counted_readLine hρ hl)
  · next hl => exact .fault .noChunkEnd (counted_readLine hρ hl)

theorem accounts_readChunkData (hρ : KeepsCount ρ) (size : Nat) (c : ChunkedReader ρ) :
    Accounts c (readChunkData size c) := by
  unfold readChunkData
  split
  · next hl => exact .upTo (.exact hl) rfl
  · next chunk inner hl =>
    exact (accounts_readChunkEnd hρ chunk (c.counted inner)).trans
      (counted_account (hρ.readExact hl))

theorem accounts_nextChunk (hρ : KeepsCount ρ) (c : ChunkedReader ρ) :
    Accounts c c.nextChunk := by
  unfold nextChunk
  split
  · exact .ok rfl
  · split
    · next hl => exact .upTo (.line hl) rfl
    · next hl => exact .fault .noSizeLine (counted_readLine hρ hl)
    -- The size line is counted, whether it announces a size or not.
    · next hl =>
      have hcount := counted_readLine hρ hl
      split
      · exact .fault .chunk hcount
      · exact (accounts_readTrailers hρ _).trans hcount
      · exact (accounts_readChunkData hρ _ _).trans hcount

theorem accounts_of_nextChunk (hρ : KeepsCount ρ)
    {x : Except (Stop ReceiveError) (Option Bytes) × ChunkedReader ρ} (h : c.nextChunk = x) :
    Accounts c x := by
  rw [← h]
  exact accounts_nextChunk hρ c

/-! ### Operations -/

theorem accounts_takeLine (hρ : KeepsCount ρ) (c : ChunkedReader ρ) : Accounts c c.takeLine := by
  fun_induction takeLine c with
  | case1 c before _ after hcut => exact .ok rfl
  | case2 c _ e c' hnext => exact (accounts_of_nextChunk hρ hnext).error
  | case3 c _ chunk c' hnext ih => exact ih.trans (accounts_of_nextChunk hρ hnext).count_of_ok
  | case4 c _ c' hnext | case5 c _ c' hnext =>
    exact .ok (accounts_of_nextChunk hρ hnext).count_of_ok

theorem accounts_takeToEnd (hρ : KeepsCount ρ) (got : Bytes) (c : ChunkedReader ρ) :
    Accounts c (takeToEnd got c) := by
  fun_induction takeToEnd got c with
  | case1 got c e c' hnext => exact (accounts_of_nextChunk hρ hnext).error
  | case2 got c chunk c' hnext ih => exact ih.trans (accounts_of_nextChunk hρ hnext).count_of_ok
  | case3 got c c' hnext => exact .ok (accounts_of_nextChunk hρ hnext).count_of_ok

/-- What an operation that starts counting again has counted, whichever answer its outcome has. -/
theorem Accounts.outcome {x : Except (Stop ReceiveError) α × ChunkedReader ρ}
    (h : Accounts { c with lastTaken := 0 } x) {answered : Except (Stop ReceiveError) α → Outcome}
    (herror : ∀ answer e, (answered answer).HasError e ↔ answer = .error e) :
    (∀ e, (answered x.1).HasError e → CodingFault e) ∧
        x.2.lastTaken + ByteReader.remaining x.2.inner = ByteReader.remaining c.inner ∨
      ∃ e q, (answered x.1).HasError e ∧ Fails e q x.2.inner ∧
        x.2.lastTaken + ByteReader.remaining q = ByteReader.remaining c.inner := by
  cases h with
  | whole hanswer hcount =>
    refine .inl ⟨fun e he => hanswer e ((herror _ e).mp he), ?_⟩
    rw [Nat.zero_add] at hcount
    exact hcount
  | @upTo e _ q hfails hcount =>
    refine .inr ⟨e, q, (herror _ e).mpr rfl, hfails, ?_⟩
    rw [Nat.zero_add] at hcount
    exact hcount

theorem account_perform (hρ : KeepsCount ρ) (c : ChunkedReader ρ) (op : Operation) :
    (∀ e, (op.perform c).1.HasError e → CodingFault e) ∧
        (op.perform c).2.lastTaken + ByteReader.remaining (op.perform c).2.inner =
          ByteReader.remaining c.inner ∨
      ∃ e q, (op.perform c).1.HasError e ∧ Fails e q (op.perform c).2.inner ∧
        (op.perform c).2.lastTaken + ByteReader.remaining q = ByteReader.remaining c.inner := by
  have hline (answer : Except (Stop ReceiveError) (Option Text)) (e : Stop ReceiveError) :
      (Outcome.line answer).HasError e ↔ answer = .error e := by
    constructor
    · rintro ⟨⟩
      rfl
    · rintro rfl
      exact .line
  have hoctets (answer : Except (Stop ReceiveError) Bytes) (e : Stop ReceiveError) :
      (Outcome.octets answer).HasError e ↔ answer = .error e := by
    constructor
    · rintro ⟨⟩
      rfl
    · rintro rfl
      exact .octets
  cases op with
  | line => exact (accounts_takeLine hρ { c with lastTaken := 0 }).outcome hline
  | exact count =>
    have h : Accounts { c with lastTaken := 0 } (c.readExact count) :=
      .fault .unsupported rfl
    exact h.outcome hoctets
  | toEnd =>
    have h : Accounts { c with lastTaken := 0 } c.readToEnd :=
      (accounts_takeToEnd hρ c.pending { c with pending := [], lastTaken := 0 }).trans rfl
    exact h.outcome hoctets

end ChunkedReader

end

namespace ByteReader

/-- **What is counted as consumed.**  Behind every operation, also one that has failed, and in
whatever state the reader was before:

A buffered reader has counted what the operation removed, unless it is a block or the rest of the
octets that the source has cut off.  Then it has counted nothing.

A reader of chunks over it has counted what the operation removed from the buffered reader, if it
has succeeded or failed with a fault of the coding.  Otherwise a line, a block or the trailers have
failed below, and it has counted what had been removed in front of that. -/
theorem lastTaken_account {σ : Type} [ByteSource σ] :
    (∀ (r : BufferedReader σ) (op : Operation),
      (op.perform r).1.IsCutOff ∧ (op.perform r).2.lastTaken = 0 ∨
        ¬ (op.perform r).1.IsCutOff ∧
          (op.perform r).2.lastTaken + (op.perform r).2.remaining = r.remaining) ∧
      ∀ (c : ChunkedReader (BufferedReader σ)) (op : Operation),
        (∀ e, (op.perform c).1.HasError e → CodingFault e) ∧
            (op.perform c).2.lastTaken + (op.perform c).2.inner.remaining = c.inner.remaining ∨
          ∃ e q, (op.perform c).1.HasError e ∧ Fails e q (op.perform c).2.inner ∧
            (op.perform c).2.lastTaken + q.remaining = c.inner.remaining :=
  ⟨fun r op => r.account_perform op,
    fun c op => c.account_perform BufferedReader.keepsCount op⟩

/-- **Octets may be removed and not counted.**  Of ten octets three arrive before the source fails,
and none is counted.  Behind a chunk stands a line that is no ASCII, and the two octets of that line
are not counted. -/
theorem lastTaken_omits :
    let r := BufferedReader.ofSource (Timed.mk (α := Peer)
      { script := [.data [0x61, 0x62, 0x63], .fault { message := "reset".toList }] } {}) 2
    let c : ChunkedReader (BufferedReader Pieces) :=
      { inner := .ofSource ⟨[Utf8.encode "1\na\n".toList ++ [0xE9, 0x0A]]⟩ 16 }
    ((Operation.exact 10).perform r).2.lastTaken = 0 ∧
      ((Operation.exact 10).perform r).2.remaining + 3 = r.remaining ∧
        (Operation.toEnd.perform c).2.lastTaken = 4 ∧
          (Operation.toEnd.perform c).2.inner.remaining + 6 = c.inner.remaining := by
  decide +kernel

end ByteReader

end HttpWire
