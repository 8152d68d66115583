import HttpWire.Proofs.Steps
import HttpWire.Reading.Flat

/-!
# Where a transport stops a reader

Code that is written over the contract of a reader passes on the first stop of its transport and
asks for nothing more.  So if every operation of a reader keeps a property, or is stopped in a state
that is known, then receiving a request does the same (`Stoppable.receive`): an answer that does not
come from the transport stands before a reader with the property.

A buffered reader is stopped where its source is (`BufferedReader.stoppable`), and the flat reader
nowhere (`FlatReader.stoppable`).
-/

namespace HttpWire

variable {ρ σ α : Type}

/-- An answer and what stands behind it: `P` holds there unless the transport has stopped, and then
`stopped` says how. -/
inductive Leads (P : ρ → Prop) (stopped : Stop IoError → ρ → Prop) :
    Except (Stop ReceiveError) α × ρ → Prop
  | ok {a r} (h : P r) : Leads P stopped (.ok a, r)
  /-- The octets are at fault. -/
  | refused {e r} (he : ∀ io, e ≠ .io io) (h : P r) : Leads P stopped (.error (.fault e), r)
  | stopped {e r} (h : stopped e r) : Leads P stopped (.error (e.map .io), r)

/-- An error is passed on whatever was asked for. -/
theorem Leads.error {β : Type} {P : ρ → Prop} {stopped : Stop IoError → ρ → Prop} {r : ρ}
    {e : Stop ReceiveError} (h : Leads P stopped ((.error e, r) : Except _ α × ρ)) :
    Leads P stopped ((.error e, r) : Except _ β × ρ) := by
  cases h with
  | refused he h' => exact .refused he h'
  | stopped h' => exact .stopped h'

/-- Every operation of a reader keeps `P` or is stopped by the transport. -/
structure Stoppable [ByteReader ρ] (P : ρ → Prop) (stopped : Stop IoError → ρ → Prop) : Prop where
  readLine : ∀ {r}, P r → Leads P stopped (ByteReader.readLine r)
  readExact : ∀ n {r}, P r → Leads P stopped (ByteReader.readExact n r)

namespace Stoppable

variable [ByteReader ρ] {P : ρ → Prop} {stopped : Stop IoError → ρ → Prop} {r : ρ}

/-! ### Lines and header blocks -/

theorem firstLine (hP : Stoppable P stopped) (h : P r) :
    Leads P stopped (HttpWire.firstLine r) := by
  fun_induction HttpWire.firstLine r with
  | case1 r r' hl ih =>
    have hread := hP.readLine h
    rw [hl] at hread
    cases hread with
    | ok h' => exact ih h'
  | case2 r _ => exact hP.readLine h

theorem readBlock (hP : Stoppable P stopped) (taken : Nat) (headers : Headers) (h : P r) :
    Leads (fun x => P x.2) (fun e x => stopped e x.2) (Headers.readBlock taken headers r) := by
  fun_induction Headers.readBlock taken headers r with
  | case1 taken headers r e r' hl =>
    have hread := hP.readLine h
    rw [hl] at hread
    cases hread with
    | refused he h' => exact .refused he h'
    | stopped h' => exact .stopped h'
  | case2 taken headers r r' hl =>
    have hread := hP.readLine h
    rw [hl] at hread
    cases hread with
    | ok h' => exact .refused (fun _ hio => by cases hio) h'
  | case3 taken headers r r' hl =>
    have hread := hP.readLine h
    rw [hl] at hread
    cases hread with
    | ok h' => exact .ok h'
  | case4 taken headers r line r' _ hl e _ =>
    have hread := hP.readLine h
    rw [hl] at hread
    cases hread with
    | ok h' => exact .refused (fun _ hio => by cases hio) h'
  | case5 taken headers r line r' _ hl f _ ih =>
    have hread := hP.readLine h
    rw [hl] at hread
    cases hread with
    | ok h' => exact ih h'

/-! ### Chunked bodies -/

/-- What holds of the reader that a chunked body is read from. -/
abbrev Inside (P : ρ → Prop) (c : ChunkedReader ρ) : Prop :=
  P c.inner

/-- A chunked body is stopped where its reader is. -/
abbrev StoppedInside (stopped : Stop IoError → ρ → Prop) (e : Stop IoError)
    (c : ChunkedReader ρ) : Prop :=
  stopped e c.inner

variable {c : ChunkedReader ρ}

theorem readTrailers (hP : Stoppable P stopped) (h : P c.inner) :
    Leads (Inside P) (StoppedInside stopped) c.readTrailers := by
  have hblock := hP.readBlock 0 (if c.keepTrailers then c.trailers else {}) h
  unfold ChunkedReader.readTrailers
  generalize Headers.readBlock 0 _ c.inner = x at hblock
  cases hblock with
  | ok h' => exact .ok h'
  | refused he h' => exact .refused he h'
  | stopped h' => exact .stopped h'

theorem readChunkEnd (hP : Stoppable P stopped) (chunk : Bytes) (h : P c.inner) :
    Leads (Inside P) (StoppedInside stopped) (c.readChunkEnd chunk) := by
  have hread := hP.readLine h
  unfold ChunkedReader.readChunkEnd
  generalize ByteReader.readLine c.inner = x at hread
  cases hread with
  | @ok line r' h' =>
    rcases line with _ | _ | ⟨x, xs⟩
    · exact .refused nofun h'
    · exact .ok h'
    · exact .refused nofun h'
  | refused he h' => exact .refused he h'
  | stopped h' => exact .stopped h'

theorem readChunkData (hP : Stoppable P stopped) (size : Nat) (h : P c.inner) :
    Leads (Inside P) (StoppedInside stopped) (c.readChunkData size) := by
  have hread := hP.readExact size h
  unfold ChunkedReader.readChunkData
  generalize ByteReader.readExact size c.inner = x at hread
  cases hread with
  | @ok chunk r' h' =>
    apply hP.readChunkEnd chunk
    exact h'
  | refused he h' => exact .refused he h'
  | stopped h' => exact .stopped h'

theorem nextChunk (hP : Stoppable P stopped) (h : P c.inner) :
    Leads (Inside P) (StoppedInside stopped) c.nextChunk := by
  unfold ChunkedReader.nextChunk
  split
  · exact .ok h
  · have hread := hP.readLine h
    generalize ByteReader.readLine c.inner = x at hread
    cases hread with
    | @ok line r' h' =>
      cases line with
      | none => exact .refused nofun h'
      | some line =>
        have hcounted : P (c.counted r').inner := h'
        simp only
        rcases chunkSize line with e | _ | size
        · exact .refused nofun h'
        · exact hP.readTrailers hcounted
        · exact hP.readChunkData (size + 1) hcounted
    | refused he h' => exact .refused he h'
    | stopped h' => exact .stopped h'

theorem takeToEnd (hP : Stoppable P stopped) (got : Bytes) (h : P c.inner) :
    Leads (Inside P) (StoppedInside stopped) (ChunkedReader.takeToEnd got c) := by
  fun_induction ChunkedReader.takeToEnd got c with
  | case1 got c e c' hc =>
    have hnext := hP.nextChunk h
    rw [hc] at hnext
    exact hnext.error
  | case2 got c chunk c' hc ih =>
    have hnext := hP.nextChunk h
    rw [hc] at hnext
    cases hnext with
    | ok h' => exact ih h'
  | case3 got c c' hc =>
    have hnext := hP.nextChunk h
    rw [hc] at hnext
    cases hnext with
    | ok h' => exact .ok h'

theorem receiveChunked (hP : Stoppable P stopped) (keepTrailers : Bool) (h : P r) :
    Leads P stopped (HttpWire.receiveChunked keepTrailers r) := by
  have hbody : Leads (Inside P) (StoppedInside stopped)
      (ChunkedReader.readToEnd { inner := r, keepTrailers }) := hP.takeToEnd [] h
  unfold HttpWire.receiveChunked
  generalize ChunkedReader.readToEnd { inner := r, keepTrailers } = x at hbody
  cases hbody with
  | ok h' => exact .ok h'
  | refused he h' => exact .refused he h'
  | stopped h' => exact .stopped h'

/-! ### Requests -/

theorem receiveBody (hP : Stoppable P stopped) (allowTrailers : Bool) (headers : Headers)
    (h : P r) : Leads P stopped (HttpWire.receiveBody allowTrailers headers r) := by
  unfold HttpWire.receiveBody
  rcases announcedLength headers with e | _ | n
  · exact .refused nofun h
  · simp only
    split
    · have hbody := hP.receiveChunked (allowTrailers && headers.listsToken .te "trailers".toList) h
      generalize HttpWire.receiveChunked _ r = x at hbody
      cases hbody with
      | ok h' => exact .ok h'
      | refused he h' => exact .refused he h'
      | stopped h' => exact .stopped h'
    · exact .ok h
  · have hread := hP.readExact (n + 1) h
    simp only
    generalize ByteReader.readExact (n + 1) r = x at hread
    cases hread with
    | ok h' => exact .ok h'
    | refused he h' => exact .refused he h'
    | stopped h' => exact .stopped h'

theorem receiveBehind (hP : Stoppable P stopped) (allowTrailers : Bool) (line : RequestLine)
    (version : Version) (h : P r) :
    Leads P stopped (HttpWire.receiveBehind allowTrailers line version r) := by
  have hblock := hP.readBlock 0 {} h
  unfold HttpWire.receiveBehind
  generalize Headers.readBlock 0 {} r = x at hblock
  cases hblock with
  | @ok length x h' =>
    obtain ⟨headers, r'⟩ := x
    simp only
    cases effectiveMethod? line.method headers with
    | none => exact .ok h'
    | some method =>
      have hbody := hP.receiveBody allowTrailers headers h'
      simp only
      generalize HttpWire.receiveBody allowTrailers headers r' = y at hbody
      cases hbody with
      | ok h'' => exact .ok h''
      | refused he h'' => exact .refused he h''
      | stopped h'' => exact .stopped h''
  | refused he h' => exact .refused he h'
  | stopped h' => exact .stopped h'

/-- **Receiving a request keeps what every operation keeps**, unless the transport stops it. -/
theorem receive {υ : Type} [VersionResolver υ] (hP : Stoppable P stopped) (allowTrailers : Bool)
    (versions : υ) (h : P r) :
    Leads (fun x => P x.2) (fun e x => stopped e x.2)
      (HttpWire.receive allowTrailers versions r) := by
  have hline := hP.firstLine h
  unfold HttpWire.receive
  generalize HttpWire.firstLine r = x at hline
  cases hline with
  | @ok line r' h' =>
    cases line with
    | none => exact .ok h'
    | some line =>
      simp only
      cases RequestLine.ofText? line with
      | none => exact .ok h'
      | some line =>
        simp only
        rcases VersionResolver.resolve line.protocol versions with ⟨e | version, versions⟩
        · exact .ok h'
        · have hbehind := hP.receiveBehind allowTrailers line version h'
          simp only
          generalize HttpWire.receiveBehind allowTrailers line version r' = y at hbehind
          cases hbehind with
          | ok h'' => exact .ok h''
          | refused he h'' => exact .refused he h''
          | stopped h'' => exact .stopped h''
  | refused he h' => exact .refused he h'
  | stopped h' => exact .stopped h'

end Stoppable

/-! ### Readers -/

/-- A line that cannot be decoded is the fault of its octets. -/
theorem LineCharset.leads_answer {P : ρ → Prop} {stopped : Stop IoError → ρ → Prop} {r : ρ}
    (charset : LineCharset) (line : Bytes) (h : P r) :
    Leads P stopped (charset.answer line, r) := by
  unfold LineCharset.answer LineCharset.decode
  cases charset with
  | utf8 => exact .ok h
  | ascii =>
    dsimp only
    cases Utf8.decodeAscii? line with
    | some t => exact .ok h
    | none => exact .refused nofun h

/-- A reader of octets in memory has no transport that could stop it. -/
theorem FlatReader.stoppable : Stoppable (fun _ : FlatReader => True) (fun _ _ => False) where
  readLine {f} _ := by
    show Leads _ _ f.readLine
    rw [readLine]
    split
    · exact LineCharset.leads_answer _ _ trivial
    · split
      · exact .ok trivial
      · exact LineCharset.leads_answer _ _ trivial
  readExact n {f} _ := by
    show Leads _ _ (f.readExact n)
    rw [readExact]
    split
    · exact .ok trivial
    · exact .refused (fun _ h => by cases h) trivial

/-- A read of a source keeps `P` or is stopped. -/
def ReadLeads (P : σ → Prop) (stopped : Stop IoError → σ → Prop) :
    Except (Stop IoError) Bytes × σ → Prop
  | (.ok _, s) => P s
  | (.error e, s) => stopped e s

namespace BufferedReader

variable [ByteSource σ] {P : σ → Prop} {stopped : Stop IoError → σ → Prop} {r r' : BufferedReader σ}

theorem leads_fill (hP : ∀ n s, 0 < n → P s → ReadLeads P stopped (ByteSource.read n s))
    (h : P r.source) :
    Leads (fun r => P r.source) (fun e r => stopped e r.source) r.fill := by
  have hread := hP r.capacity r.source r.capacity_pos h
  unfold fill
  split
  · exact .ok h
  · generalize ByteSource.read r.capacity r.source = x at hread
    rcases x with ⟨e | _ | ⟨b, bs⟩, s⟩
    · exact .stopped hread
    · exact .ok hread
    · exact .ok hread

theorem leads_takeLine (hP : ∀ n s, 0 < n → P s → ReadLeads P stopped (ByteSource.read n s))
    (line : Bytes) (h : P r.source) :
    Leads (fun r => P r.source) (fun e r => stopped e r.source) (takeLine line r) := by
  have hadvance {r : BufferedReader σ} (h : P r.source) :
      Leads (fun r => P r.source) (fun e r => stopped e r.source) r.advance := leads_fill hP h
  fun_induction takeLine line r with
  | case1 line r before sep after hs => exact LineCharset.leads_answer _ _ h
  | case2 line r hs e r' ha =>
    have hfill := hadvance h
    rw [ha] at hfill
    exact hfill.error
  | case3 line r hs r' ha h0 =>
    have hfill := hadvance h
    rw [ha] at hfill
    cases hfill with
    | ok h' => exact .ok h'
  | case4 line r hs r' ha h0 =>
    have hfill := hadvance h
    rw [ha] at hfill
    cases hfill with
    | ok h' => exact LineCharset.leads_answer _ _ h'
  | case5 line r hs r' ha ih =>
    have hfill := hadvance h
    rw [ha] at hfill
    cases hfill with
    | ok h' => exact ih h'

theorem leads_takeExact (hP : ∀ n s, 0 < n → P s → ReadLeads P stopped (ByteSource.read n s))
    (missing : Nat) (got : Bytes) (h : P r.source) :
    Leads (fun r => P r.source) (fun e r => stopped e r.source) (takeExact missing got r) := by
  fun_induction takeExact missing got r with
  | case1 missing got r hle => exact .ok h
  | case2 missing got r hlt e r' hf =>
    have hfill := leads_fill hP h
    rw [hf] at hfill
    exact hfill.error
  | case3 missing got r hlt r' hf =>
    have hfill := leads_fill hP h
    rw [hf] at hfill
    cases hfill with
    | ok h' => exact .refused (fun _ hio => by cases hio) h'
  | case4 missing got r hlt r' hf ih =>
    have hfill := leads_fill hP h
    rw [hf] at hfill
    cases hfill with
    | ok h' => exact ih h'

/-- A buffered reader keeps of its source what every read keeps, and is stopped where a read is. -/
theorem stoppable (hP : ∀ n s, 0 < n → P s → ReadLeads P stopped (ByteSource.read n s)) :
    Stoppable (fun r : BufferedReader σ => P r.source) (fun e r => stopped e r.source) where
  readLine h := leads_takeLine hP [] h
  readExact n _ h := leads_takeExact hP n [] h

end BufferedReader

end HttpWire
