import HttpWire.Proofs.Reading.Lockstep

/-!
# Readers that agree up to a mark

Code that is written over the contract of a reader asks for more only when it needs more.  So let
one reader answer like another one wherever that is not led past a mark, from behind which no
operation leads back (`Follows`).  Then whatever leaves the other reader in front of the mark does
the same over both, because nothing on the way can have led past it.

The laws below say so for header blocks, chunked bodies and requests.
-/

namespace HttpWire

variable {ρ₁ ρ₂ : Type} [ByteReader ρ₁] [ByteReader ρ₂]

/-- Wherever the second reader is not led past the mark, the first one answers alike and stays
related. -/
structure Follows (past : ρ₂ → Prop) (R : ρ₁ → ρ₂ → Prop) : Prop where
  readLine : ∀ {a b}, R a b → ¬ past (ByteReader.readLine b).2 →
    Beside R (ByteReader.readLine a) (ByteReader.readLine b)
  readExact : ∀ n {a b}, R a b → ¬ past (ByteReader.readExact n b).2 →
    Beside R (ByteReader.readExact n a) (ByteReader.readExact n b)
  lastTaken : ∀ {a b}, R a b → ByteReader.lastTaken a = ByteReader.lastTaken b
  stays : Preserved past

/-! ### What stays -/

namespace Preserved

variable {ρ : Type} [ByteReader ρ] {P : ρ → Prop} {r : ρ} {c : ChunkedReader ρ}

theorem readBlock (hP : Preserved P) (taken : Nat) (headers : Headers) (h : P r) :
    P (Headers.readBlock taken headers r).2.2 :=
  (((lockstep_refl ρ).and hP).readBlock taken headers ⟨rfl, h⟩).eq.2.2.2

omit [ByteReader ρ] in
/-- A reader of chunks over the reader, beside itself. -/
theorem beside_self (h : P c.inner) : ChunkedReader.Over (fun a b => a = b ∧ P a) c c :=
  ⟨⟨rfl, h⟩, rfl, rfl, rfl, rfl, rfl⟩

theorem readTrailers (hP : Preserved P) (h : P c.inner) : P c.readTrailers.2.inner :=
  (((lockstep_refl ρ).and hP).readTrailers (beside_self h)).eq.2.inner.2

theorem readChunkEnd (hP : Preserved P) (chunk : Bytes) (h : P c.inner) :
    P (c.readChunkEnd chunk).2.inner :=
  (((lockstep_refl ρ).and hP).readChunkEnd chunk (beside_self h)).eq.2.inner.2

theorem readChunkData (hP : Preserved P) (size : Nat) (h : P c.inner) :
    P (c.readChunkData size).2.inner :=
  (((lockstep_refl ρ).and hP).readChunkData size (beside_self h)).eq.2.inner.2

theorem takeToEnd (hP : Preserved P) (got : Bytes) (h : P c.inner) :
    P (ChunkedReader.takeToEnd got c).2.inner :=
  (((lockstep_refl ρ).and hP).takeToEnd got (beside_self h)).eq.2.inner.2

theorem receiveBehind (hP : Preserved P) (allowTrailers : Bool) (line : RequestLine)
    (version : Version) (h : P r) :
    P (HttpWire.receiveBehind allowTrailers line version r).2 :=
  (((lockstep_refl ρ).and hP).receiveBehind allowTrailers line version ⟨rfl, h⟩).eq.2.2

end Preserved

namespace Follows

variable {past : ρ₂ → Prop} {R : ρ₁ → ρ₂ → Prop} {a : ρ₁} {b b' : ρ₂}

/-! ### Lines and header blocks -/

theorem readLine_eq (hF : Follows past R) (h : R a b)
    {answer : Except (Stop ReceiveError) (Option Text)}
    (hb : ByteReader.readLine b = (answer, b')) (hpast : ¬ past b') :
    ∃ a', ByteReader.readLine a = (answer, a') ∧ R a' b' := by
  have hline := hF.readLine h
  rw [hb] at hline
  obtain ⟨ha, h'⟩ := hline hpast
  exact ⟨_, Prod.ext ha rfl, h'⟩

theorem readExact_eq (hF : Follows past R) (h : R a b) {n : Nat}
    {answer : Except (Stop ReceiveError) Bytes}
    (hb : ByteReader.readExact n b = (answer, b')) (hpast : ¬ past b') :
    ∃ a', ByteReader.readExact n a = (answer, a') ∧ R a' b' := by
  have hread := hF.readExact n h
  rw [hb] at hread
  obtain ⟨ha, h'⟩ := hread hpast
  exact ⟨_, Prod.ext ha rfl, h'⟩

theorem firstLine (hF : Follows past R) (h : R a b) (hpast : ¬ past (HttpWire.firstLine b).2) :
    Beside R (HttpWire.firstLine a) (HttpWire.firstLine b) := by
  fun_induction HttpWire.firstLine b generalizing a with
  | case1 b b' hl ih =>
    obtain ⟨a', ha, h'⟩ := hF.readLine_eq h hl fun hb => hpast (hF.stays.firstLine hb)
    rw [firstLine_eq a, ha]
    exact ih h' hpast
  | case2 b hne =>
    obtain ⟨ha, h'⟩ := hF.readLine h hpast
    rw [firstLine_eq a]
    split
    -- The second reader has an empty line only where the first one has.
    · next a' heq =>
      rw [heq] at ha
      exact (hne _ (Prod.ext ha.symm rfl)).elim
    · exact ⟨ha, h'⟩

theorem readBlock (hF : Follows past R) (taken : Nat) (headers : Headers) (h : R a b)
    (hpast : ¬ past (Headers.readBlock taken headers b).2.2) :
    Beside (Beside R) (Headers.readBlock taken headers a) (Headers.readBlock taken headers b) := by
  fun_induction Headers.readBlock taken headers b generalizing a with
  | case1 taken headers b e b' hl | case2 taken headers b b' hl | case3 taken headers b b' hl =>
    obtain ⟨a', ha, h'⟩ := hF.readLine_eq h hl hpast
    rw [Headers.readBlock_eq taken headers a, ha]
    simp +zetaDelta only [hF.lastTaken h']
    exact ⟨rfl, rfl, h'⟩
  | case4 taken headers b line b' hne hl e he =>
    obtain ⟨a', ha, h'⟩ := hF.readLine_eq h hl hpast
    rw [Headers.readBlock_eq taken headers a, ha]
    simp only [he]
    exact ⟨rfl, rfl, h'⟩
  | case5 taken headers b line b' hne hl f hf ih =>
    obtain ⟨a', ha, h'⟩ := hF.readLine_eq h hl fun hb => hpast (hF.stays.readBlock _ _ hb)
    rw [Headers.readBlock_eq taken headers a, ha]
    simp only [hf]
    rw [← hF.lastTaken h'] at ih hpast ⊢
    exact ih h' hpast

/-! ### Chunked bodies -/

variable {c : ChunkedReader ρ₁} {d : ChunkedReader ρ₂}

/-- Counting what the inner readers took keeps two readers beside each other. -/
theorem counted (hF : Follows past R) (h : ChunkedReader.Over R c d) (h' : R a b) :
    ChunkedReader.Over R (c.counted a) (d.counted b) :=
  { h with
    inner := h'
    lastTaken := by
      show c.lastTaken + ByteReader.lastTaken a = d.lastTaken + ByteReader.lastTaken b
      rw [h.lastTaken, hF.lastTaken h'] }

theorem readTrailers (hF : Follows past R) (h : ChunkedReader.Over R c d)
    (hpast : ¬ past d.readTrailers.2.inner) :
    Beside (ChunkedReader.Over R) c.readTrailers d.readTrailers := by
  have hblock := hF.readBlock 0 (if d.keepTrailers then d.trailers else {}) h.inner
  unfold ChunkedReader.readTrailers at hpast ⊢
  rw [h.keepTrailers, h.trailers]
  generalize Headers.readBlock 0 _ c.inner = x at hblock ⊢
  generalize Headers.readBlock 0 _ d.inner = y at hblock hpast ⊢
  obtain ⟨answer, kept, b⟩ := y
  obtain ⟨rfl, rfl, h'⟩ := hblock (by cases answer <;> exact hpast)
  cases hanswer : x.1 with
  | error e =>
    dsimp only
    rw [hanswer]
    exact ⟨rfl, { h with inner := h', keepTrailers := rfl, trailers := rfl }⟩
  | ok length =>
    dsimp only
    rw [hanswer, h.lastTaken]
    exact ⟨rfl, { h with
      inner := h', keepTrailers := rfl, trailers := rfl, finished := rfl, lastTaken := rfl }⟩

theorem readChunkEnd (hF : Follows past R) (chunk : Bytes) (h : ChunkedReader.Over R c d)
    (hpast : ¬ past (d.readChunkEnd chunk).2.inner) :
    Beside (ChunkedReader.Over R) (c.readChunkEnd chunk) (d.readChunkEnd chunk) := by
  unfold ChunkedReader.readChunkEnd at hpast ⊢
  rcases hd : ByteReader.readLine d.inner with ⟨e | _ | _ | ⟨x, xs⟩, b⟩ <;> rw [hd] at hpast <;>
    obtain ⟨a, hc, h'⟩ := hF.readLine_eq h.inner hd hpast <;> rw [hc]
  · exact ⟨rfl, { h with inner := h' }⟩
  all_goals exact ⟨rfl, hF.counted h h'⟩

theorem readChunkData (hF : Follows past R) (size : Nat) (h : ChunkedReader.Over R c d)
    (hpast : ¬ past (d.readChunkData size).2.inner) :
    Beside (ChunkedReader.Over R) (c.readChunkData size) (d.readChunkData size) := by
  unfold ChunkedReader.readChunkData at hpast ⊢
  rcases hd : ByteReader.readExact size d.inner with ⟨e | chunk, b⟩ <;> rw [hd] at hpast
  · obtain ⟨a, hc, h'⟩ := hF.readExact_eq h.inner hd hpast
    rw [hc]
    exact ⟨rfl, { h with inner := h' }⟩
  · obtain ⟨a, hc, h'⟩ := hF.readExact_eq h.inner hd fun hb =>
      hpast (hF.stays.readChunkEnd (c := d.counted b) chunk hb)
    rw [hc]
    exact hF.readChunkEnd chunk (hF.counted h h') hpast

theorem nextChunk (hF : Follows past R) (h : ChunkedReader.Over R c d)
    (hpast : ¬ past d.nextChunk.2.inner) :
    Beside (ChunkedReader.Over R) c.nextChunk d.nextChunk := by
  unfold ChunkedReader.nextChunk at hpast ⊢
  rw [h.finished]
  split
  · exact ⟨rfl, h⟩
  · next hmore =>
    rw [if_neg hmore] at hpast
    rcases hd : ByteReader.readLine d.inner with ⟨e | _ | line, b⟩ <;> rw [hd] at hpast
    · obtain ⟨a, hc, h'⟩ := hF.readLine_eq h.inner hd hpast
      rw [hc]
      exact ⟨rfl, { h with inner := h', finished := rfl }⟩
    · obtain ⟨a, hc, h'⟩ := hF.readLine_eq h.inner hd hpast
      rw [hc]
      exact ⟨rfl, hF.counted h h'⟩
    · dsimp only at hpast
      rcases hsize : chunkSize line with e | _ | size <;> rw [hsize] at hpast
      · obtain ⟨a, hc, h'⟩ := hF.readLine_eq h.inner hd hpast
        rw [hc]
        dsimp only
        rw [hsize]
        exact ⟨rfl, hF.counted h h'⟩
      · obtain ⟨a, hc, h'⟩ := hF.readLine_eq h.inner hd fun hb =>
          hpast (hF.stays.readTrailers (c := d.counted b) hb)
        rw [hc]
        dsimp only
        rw [hsize]
        exact hF.readTrailers (hF.counted h h') hpast
      · obtain ⟨a, hc, h'⟩ := hF.readLine_eq h.inner hd fun hb =>
          hpast (hF.stays.readChunkData (c := d.counted b) (size + 1) hb)
        rw [hc]
        dsimp only
        rw [hsize]
        exact hF.readChunkData (size + 1) (hF.counted h h') hpast

theorem nextChunk_eq (hF : Follows past R) (h : ChunkedReader.Over R c d)
    {answer : Except (Stop ReceiveError) (Option Bytes)} {d' : ChunkedReader ρ₂}
    (hd : d.nextChunk = (answer, d')) (hpast : ¬ past d'.inner) :
    ∃ c', c.nextChunk = (answer, c') ∧ ChunkedReader.Over R c' d' := by
  have hnext := hF.nextChunk h
  rw [hd] at hnext
  obtain ⟨hc, h'⟩ := hnext hpast
  exact ⟨_, Prod.ext hc rfl, h'⟩

theorem takeToEnd (hF : Follows past R) (got : Bytes) (h : ChunkedReader.Over R c d)
    (hpast : ¬ past (ChunkedReader.takeToEnd got d).2.inner) :
    Beside (ChunkedReader.Over R) (ChunkedReader.takeToEnd got c)
      (ChunkedReader.takeToEnd got d) := by
  fun_induction ChunkedReader.takeToEnd got d generalizing c with
  | case1 got d e d' hd | case3 got d d' hd =>
    obtain ⟨c', hc, h'⟩ := hF.nextChunk_eq h hd hpast
    rw [ChunkedReader.takeToEnd_eq got c, hc]
    exact ⟨rfl, h'⟩
  | case2 got d chunk d' hd ih =>
    obtain ⟨c', hc, h'⟩ := hF.nextChunk_eq h hd fun hb => hpast (hF.stays.takeToEnd _ hb)
    rw [ChunkedReader.takeToEnd_eq got c, hc]
    exact ih h' hpast

/-! ### Requests -/

theorem receiveChunked (hF : Follows past R) (keepTrailers : Bool) (h : R a b)
    (hpast : ¬ past (HttpWire.receiveChunked keepTrailers b).2) :
    Beside R (HttpWire.receiveChunked keepTrailers a) (HttpWire.receiveChunked keepTrailers b) := by
  have hbody := hF.takeToEnd [] (c := { inner := a, keepTrailers, lastTaken := 0 })
    (d := { inner := b, keepTrailers, lastTaken := 0 }) ⟨h, rfl, rfl, rfl, rfl, rfl⟩
  unfold HttpWire.receiveChunked ChunkedReader.readToEnd at hpast ⊢
  generalize ChunkedReader.takeToEnd [] { inner := a, keepTrailers, lastTaken := 0 } = x
    at hbody ⊢
  generalize ChunkedReader.takeToEnd [] { inner := b, keepTrailers, lastTaken := 0 } = y
    at hbody hpast ⊢
  obtain ⟨answer, d⟩ := y
  obtain ⟨answer', c⟩ := x
  obtain ⟨rfl, h'⟩ : answer' = answer ∧ ChunkedReader.Over R c d :=
    hbody (by cases answer <;> exact hpast)
  cases answer' with
  | error e => exact ⟨rfl, h'.inner⟩
  | ok payload =>
    dsimp only
    rw [h'.trailers]
    exact ⟨rfl, h'.inner⟩

theorem receiveBody (hF : Follows past R) (allowTrailers : Bool) (headers : Headers) (h : R a b)
    (hpast : ¬ past (HttpWire.receiveBody allowTrailers headers b).2) :
    Beside R (HttpWire.receiveBody allowTrailers headers a)
      (HttpWire.receiveBody allowTrailers headers b) := by
  unfold HttpWire.receiveBody at hpast ⊢
  generalize announcedLength headers = length at hpast ⊢
  rcases length with e | _ | n
  · exact ⟨rfl, h⟩
  · dsimp only at hpast ⊢
    split
    · next hchunked =>
      rw [if_pos hchunked] at hpast
      have hbody := hF.receiveChunked (allowTrailers && headers.listsToken .te "trailers".toList) h
      generalize HttpWire.receiveChunked _ a = x at hbody ⊢
      generalize HttpWire.receiveChunked _ b = y at hbody hpast ⊢
      obtain ⟨answer, b'⟩ := y
      obtain ⟨answer', a'⟩ := x
      obtain ⟨rfl, h'⟩ : answer' = answer ∧ R a' b' := hbody (by cases answer <;> exact hpast)
      cases answer' <;> exact ⟨rfl, h'⟩
    · exact ⟨rfl, h⟩
  · dsimp only at hpast ⊢
    rcases hb : ByteReader.readExact (n + 1) b with ⟨e | raw, b'⟩ <;> rw [hb] at hpast <;>
      obtain ⟨a', ha, h'⟩ := hF.readExact_eq h hb hpast <;> rw [ha] <;> exact ⟨rfl, h'⟩

theorem receiveBehind (hF : Follows past R) (allowTrailers : Bool) (line : RequestLine)
    (version : Version) (h : R a b)
    (hpast : ¬ past (HttpWire.receiveBehind allowTrailers line version b).2) :
    Beside R (HttpWire.receiveBehind allowTrailers line version a)
      (HttpWire.receiveBehind allowTrailers line version b) := by
  have hblock := hF.readBlock 0 {} h
  unfold HttpWire.receiveBehind at hpast ⊢
  generalize Headers.readBlock 0 {} a = x at hblock ⊢
  generalize Headers.readBlock 0 {} b = y at hblock hpast ⊢
  obtain ⟨answer, headers, b'⟩ := y
  obtain ⟨answer', headers', a'⟩ := x
  have hbeside (hb : ¬ past b') : answer' = answer ∧ headers' = headers ∧ R a' b' := hblock hb
  cases answer with
  | error e =>
    obtain ⟨rfl, rfl, h'⟩ := hbeside hpast
    exact ⟨rfl, h'⟩
  | ok length =>
    dsimp only at hpast ⊢
    cases hmethod : effectiveMethod? line.method headers with
    | none =>
      rw [hmethod] at hpast
      obtain ⟨rfl, rfl, h'⟩ := hbeside hpast
      dsimp only
      rw [hmethod]
      exact ⟨rfl, h'⟩
    | some method =>
      rw [hmethod] at hpast
      have hbody {a' : ρ₁} (h' : R a' b') := hF.receiveBody allowTrailers headers h'
      have hstays := @Preserved.receiveBody _ _ _ b' hF.stays allowTrailers headers
      dsimp only at hpast ⊢
      generalize HttpWire.receiveBody allowTrailers headers b' = y at hbody hstays hpast ⊢
      obtain ⟨answer, b''⟩ := y
      have hb'' : ¬ past b'' := by cases answer <;> exact hpast
      obtain ⟨rfl, rfl, h'⟩ := hbeside fun hb => hb'' (hstays hb)
      obtain ⟨ha, h''⟩ := hbody h' hb''
      dsimp only
      rw [hmethod, show HttpWire.receiveBody allowTrailers headers' a' = (answer, _) from
        Prod.ext ha rfl]
      cases answer <;> exact ⟨rfl, h''⟩

/-- **What leaves the second reader in front of the mark is received by the first one, too.** -/
theorem receive {υ : Type} [VersionResolver υ] (hF : Follows past R) (allowTrailers : Bool)
    (versions : υ) (h : R a b)
    (hpast : ¬ past (HttpWire.receive allowTrailers versions b).2.2) :
    Beside (Beside R) (HttpWire.receive allowTrailers versions a)
      (HttpWire.receive allowTrailers versions b) := by
  have hline := hF.firstLine h
  unfold HttpWire.receive at hpast ⊢
  generalize HttpWire.firstLine a = x at hline ⊢
  generalize HttpWire.firstLine b = y at hline hpast ⊢
  obtain ⟨answer, b'⟩ := y
  obtain ⟨answer', a'⟩ := x
  have hbeside (hb : ¬ past b') : answer' = answer ∧ R a' b' := hline hb
  rcases answer with e | _ | line
  · obtain ⟨rfl, h'⟩ := hbeside hpast
    exact ⟨rfl, rfl, h'⟩
  · obtain ⟨rfl, h'⟩ := hbeside hpast
    exact ⟨rfl, rfl, h'⟩
  · dsimp only at hpast
    cases hcut : RequestLine.ofText? line with
    | none =>
      rw [hcut] at hpast
      obtain ⟨rfl, h'⟩ := hbeside hpast
      dsimp only
      rw [hcut]
      exact ⟨rfl, rfl, h'⟩
    | some parts =>
      rw [hcut] at hpast
      dsimp only at hpast
      rcases hversion : VersionResolver.resolve parts.protocol versions with
        ⟨e | version, versions'⟩ <;> rw [hversion] at hpast
      · obtain ⟨rfl, h'⟩ := hbeside hpast
        dsimp only
        rw [hcut]
        dsimp only
        rw [hversion]
        exact ⟨rfl, rfl, h'⟩
      · obtain ⟨rfl, h'⟩ := hbeside fun hb =>
          hpast (hF.stays.receiveBehind allowTrailers parts version hb)
        obtain ⟨ha, h''⟩ := hF.receiveBehind allowTrailers parts version h' hpast
        dsimp only
        rw [hcut]
        dsimp only
        rw [hversion]
        exact ⟨ha, rfl, h''⟩

end Follows

end HttpWire
