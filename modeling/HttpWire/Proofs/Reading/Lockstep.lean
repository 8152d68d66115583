import HttpWire.Proofs.Steps

/-!
# Readers in lockstep

Code that is written over the contract of a reader sees of its reader only the answers.  So if the
operations of two readers give the same answers and lead from related readers to related readers
(`Lockstep`), then everything written over them does the same.  The laws below say so for header
blocks, chunked bodies, requests and multipart bodies.

A comparison may allow answers of the first reader that end it (`lost`): where the transport of a
reader can fail and that of the other cannot, the two agree as long as nothing fails.
-/

namespace HttpWire

variable {α β ρ₁ ρ₂ : Type}

/-- Two answers with the readers behind them: the same answer and related readers, or an error of
the first that ends the comparison. -/
inductive Agree (lost : Stop ReceiveError → Prop) (R : ρ₁ → ρ₂ → Prop) :
    Except (Stop ReceiveError) α × ρ₁ → Except (Stop ReceiveError) α × ρ₂ → Prop
  | lost {e a y} (h : lost e) : Agree lost R (.error e, a) y
  | same {answer a b} (h : R a b) : Agree lost R (answer, a) (answer, b)

/-- Readers that stand beside the same value. -/
def Beside (R : ρ₁ → ρ₂ → Prop) (x : β × ρ₁) (y : β × ρ₂) : Prop :=
  x.1 = y.1 ∧ R x.2 y.2

namespace Agree

variable {lost : Stop ReceiveError → Prop} {R : ρ₁ → ρ₂ → Prop}

/-- An answer that does not end the comparison is the answer of both. -/
theorem eq_of_not_lost {x : Except (Stop ReceiveError) α × ρ₁}
    {y : Except (Stop ReceiveError) α × ρ₂} (h : Agree lost R x y)
    (hx : ∀ e, x.1 = .error e → ¬ lost e) : x.1 = y.1 ∧ R x.2 y.2 := by
  cases h with
  | lost he => exact absurd he (hx _ rfl)
  | same hR => exact ⟨rfl, hR⟩

/-- What is answered without an error is the answer of both. -/
theorem eq_of_ok {x : Except (Stop ReceiveError) α × ρ₁} {y : Except (Stop ReceiveError) α × ρ₂}
    (h : Agree lost R x y) {a : α} (hx : x.1 = .ok a) : y.1 = .ok a ∧ R x.2 y.2 := by
  obtain ⟨heq, hR⟩ := h.eq_of_not_lost fun e he => by rw [hx] at he; cases he
  exact ⟨heq ▸ hx, hR⟩

/-- Where no error ends the comparison, the answers are the same. -/
theorem eq {x : Except (Stop ReceiveError) α × ρ₁} {y : Except (Stop ReceiveError) α × ρ₂}
    (h : Agree (fun _ => False) R x y) : x.1 = y.1 ∧ R x.2 y.2 :=
  h.eq_of_not_lost fun _ _ hf => hf

end Agree

/-- Every operation of a reader preserves a property. -/
structure Preserved {ρ : Type} [ByteReader ρ] (P : ρ → Prop) : Prop where
  readLine : ∀ r, P r → P (ByteReader.readLine r).2
  readExact : ∀ n r, P r → P (ByteReader.readExact n r).2

/-- Related readers answer alike and stay related. -/
structure Lockstep [ByteReader ρ₁] [ByteReader ρ₂] (lost : Stop ReceiveError → Prop)
    (R : ρ₁ → ρ₂ → Prop) : Prop where
  readLine : ∀ {a b}, R a b → Agree lost R (ByteReader.readLine a) (ByteReader.readLine b)
  readExact : ∀ n {a b}, R a b →
    Agree lost R (ByteReader.readExact n a) (ByteReader.readExact n b)
  lastTaken : ∀ {a b}, R a b → ByteReader.lastTaken a = ByteReader.lastTaken b

namespace Lockstep

variable [ByteReader ρ₁] [ByteReader ρ₂] {lost : Stop ReceiveError → Prop} {R : ρ₁ → ρ₂ → Prop}

/-- What the first reader preserves may be added to the relation. -/
theorem and (hR : Lockstep lost R) {P : ρ₁ → Prop} (hP : Preserved P) :
    Lockstep lost (fun a b => R a b ∧ P a) where
  readLine {a b} h := by
    have hag := hR.readLine h.1
    have hP := hP.readLine a h.2
    generalize ByteReader.readLine a = x at hag hP ⊢
    generalize ByteReader.readLine b = y at hag ⊢
    cases hag with
    | lost he => exact .lost he
    | same hR' => exact .same ⟨hR', hP⟩
  readExact n {a b} h := by
    have hag := hR.readExact n h.1
    have hP := hP.readExact n a h.2
    generalize ByteReader.readExact n a = x at hag hP ⊢
    generalize ByteReader.readExact n b = y at hag ⊢
    cases hag with
    | lost he => exact .lost he
    | same hR' => exact .same ⟨hR', hP⟩
  lastTaken h := hR.lastTaken h.1

/-! ### Lines and header blocks -/

/-- A line of one reader, as long as it does not end the comparison, is that of the other. -/
theorem readLine_eq (hR : Lockstep lost R) {a a' : ρ₁} {b : ρ₂} (h : R a b)
    {answer : Except (Stop ReceiveError) (Option Text)}
    (ha : ByteReader.readLine a = (answer, a')) (hl : ∀ e, answer = .error e → ¬ lost e) :
    ∃ b', ByteReader.readLine b = (answer, b') ∧ R a' b' := by
  have hag := hR.readLine h
  rw [ha] at hag
  obtain ⟨heq, hR'⟩ := hag.eq_of_not_lost hl
  exact ⟨_, Prod.ext heq.symm rfl, hR'⟩

theorem firstLine (hR : Lockstep lost R) {a : ρ₁} {b : ρ₂} (h : R a b) :
    Agree lost R (HttpWire.firstLine a) (HttpWire.firstLine b) := by
  fun_induction HttpWire.firstLine a generalizing b with
  | case1 a a' hl ih =>
    obtain ⟨b', hb, h'⟩ := hR.readLine_eq h hl (by simp)
    rw [firstLine_eq b, hb]
    exact ih h'
  | case2 a hne =>
    rw [firstLine_eq b]
    have hag := hR.readLine h
    rcases ha : ByteReader.readLine a with ⟨answer, a'⟩
    rcases hb : ByteReader.readLine b with ⟨answer', b'⟩
    rw [ha, hb] at hag
    cases hag with
    | lost he => exact .lost he
    | same h' =>
      split
      -- The second reader has an empty line only where the first one has.
      · next heq =>
        cases heq
        exact absurd ha (hne a')
      · exact .same h'

theorem readBlock (hR : Lockstep lost R) (taken : Nat) (h : Headers) {a : ρ₁} {b : ρ₂}
    (hab : R a b) :
    Agree lost (Beside R) (Headers.readBlock taken h a) (Headers.readBlock taken h b) := by
  fun_induction Headers.readBlock taken h a generalizing b with
  | case1 taken h a e a' hl =>
    have hag := hR.readLine hab
    rw [hl] at hag
    rw [Headers.readBlock_eq taken h b]
    rcases hb : ByteReader.readLine b with ⟨answer, b'⟩
    rw [hb] at hag
    cases hag with
    | lost he => exact .lost he
    | same h' => exact .same ⟨rfl, h'⟩
  | case2 taken h a a' hl =>
    obtain ⟨b', hb, h'⟩ := hR.readLine_eq hab hl (by simp)
    rw [Headers.readBlock_eq taken h b, hb]
    simp +zetaDelta only [hR.lastTaken h']
    exact .same ⟨rfl, h'⟩
  | case3 taken h a a' hl =>
    obtain ⟨b', hb, h'⟩ := hR.readLine_eq hab hl (by simp)
    rw [Headers.readBlock_eq taken h b, hb]
    simp only [hR.lastTaken h']
    exact .same ⟨rfl, h'⟩
  | case4 taken h a line a' hne hl e he =>
    obtain ⟨b', hb, h'⟩ := hR.readLine_eq hab hl (by simp)
    rw [Headers.readBlock_eq taken h b, hb]
    simp only [he]
    exact .same ⟨rfl, h'⟩
  | case5 taken h a line a' hne hl f hf ih =>
    obtain ⟨b', hb, h'⟩ := hR.readLine_eq hab hl (by simp)
    rw [Headers.readBlock_eq taken h b, hb]
    simp only [hf]
    -- Both have counted the same octets so far, so the induction applies to the rest of the block.
    rw [hR.lastTaken h'] at ih ⊢
    exact ih h'

/-- A header block of one reader, as long as it does not end the comparison, is that of the
other. -/
theorem readBlock_eq (hR : Lockstep lost R) {a a' : ρ₁} {b : ρ₂} (h : R a b) {taken : Nat}
    {before headers : Headers} {answer : Except (Stop ReceiveError) Nat}
    (ha : Headers.readBlock taken before a = (answer, headers, a'))
    (hl : ∀ e, answer = .error e → ¬ lost e) :
    ∃ b', Headers.readBlock taken before b = (answer, headers, b') ∧ R a' b' := by
  have hag := hR.readBlock taken before h
  rw [ha] at hag
  obtain ⟨hanswer, hheaders, hR'⟩ := hag.eq_of_not_lost hl
  exact ⟨_, Prod.ext hanswer.symm (Prod.ext hheaders.symm rfl), hR'⟩

end Lockstep

/-! ### Chunked bodies -/

/-- Readers of chunked bodies that differ in nothing but their inner readers, which are related. -/
structure ChunkedReader.Over (R : ρ₁ → ρ₂ → Prop) (c : ChunkedReader ρ₁) (d : ChunkedReader ρ₂) :
    Prop where
  inner : R c.inner d.inner
  keepTrailers : c.keepTrailers = d.keepTrailers
  trailers : c.trailers = d.trailers
  pending : c.pending = d.pending
  finished : c.finished = d.finished
  lastTaken : c.lastTaken = d.lastTaken

namespace Lockstep

variable [ByteReader ρ₁] [ByteReader ρ₂] {lost : Stop ReceiveError → Prop} {R : ρ₁ → ρ₂ → Prop}
  {c : ChunkedReader ρ₁} {d : ChunkedReader ρ₂}

/-- Counting what the inner readers took keeps two readers beside each other. -/
theorem counted (hR : Lockstep lost R) (h : ChunkedReader.Over R c d) {a : ρ₁} {b : ρ₂}
    (hab : R a b) : ChunkedReader.Over R (c.counted a) (d.counted b) :=
  { h with
    inner := hab
    lastTaken := by
      show c.lastTaken + ByteReader.lastTaken a = d.lastTaken + ByteReader.lastTaken b
      rw [h.lastTaken, hR.lastTaken hab] }

theorem readTrailers (hR : Lockstep lost R) (h : ChunkedReader.Over R c d) :
    Agree lost (ChunkedReader.Over R) c.readTrailers d.readTrailers := by
  have hag := hR.readBlock 0 (if d.keepTrailers then d.trailers else {}) h.inner
  simp only [ChunkedReader.readTrailers, h.keepTrailers, h.trailers]
  generalize Headers.readBlock 0 _ c.inner = x at hag ⊢
  generalize Headers.readBlock 0 _ d.inner = y at hag ⊢
  cases hag with
  | lost he => exact .lost he
  | @same answer x y h' =>
    obtain ⟨kept, a⟩ := x
    obtain ⟨kept', b⟩ := y
    obtain ⟨rfl, hab⟩ : kept = kept' ∧ R a b := h'
    cases answer with
    | error e => exact .same { h with inner := hab, keepTrailers := rfl, trailers := rfl }
    | ok length =>
      simp only [h.lastTaken]
      exact .same { h with
        inner := hab, keepTrailers := rfl, trailers := rfl, finished := rfl, lastTaken := rfl }

theorem readChunkEnd (hR : Lockstep lost R) (chunk : Bytes) (h : ChunkedReader.Over R c d) :
    Agree lost (ChunkedReader.Over R) (c.readChunkEnd chunk) (d.readChunkEnd chunk) := by
  have hag := hR.readLine h.inner
  unfold ChunkedReader.readChunkEnd
  generalize ByteReader.readLine c.inner = x at hag ⊢
  generalize ByteReader.readLine d.inner = y at hag ⊢
  cases hag with
  | lost he => exact .lost he
  | @same answer a b hab =>
    rcases answer with e | _ | _ | ⟨x, xs⟩
    · exact .same { h with inner := hab }
    all_goals exact .same (hR.counted h hab)

theorem readChunkData (hR : Lockstep lost R) (size : Nat) (h : ChunkedReader.Over R c d) :
    Agree lost (ChunkedReader.Over R) (c.readChunkData size) (d.readChunkData size) := by
  have hag := hR.readExact size h.inner
  unfold ChunkedReader.readChunkData
  generalize ByteReader.readExact size c.inner = x at hag ⊢
  generalize ByteReader.readExact size d.inner = y at hag ⊢
  cases hag with
  | lost he => exact .lost he
  | @same answer a b hab =>
    cases answer with
    | error e => exact .same { h with inner := hab }
    | ok chunk => exact hR.readChunkEnd chunk (hR.counted h hab)

theorem nextChunk (hR : Lockstep lost R) (h : ChunkedReader.Over R c d) :
    Agree lost (ChunkedReader.Over R) c.nextChunk d.nextChunk := by
  unfold ChunkedReader.nextChunk
  rw [h.finished]
  split
  · exact .same h
  · have hag := hR.readLine h.inner
    generalize ByteReader.readLine c.inner = x at hag ⊢
    generalize ByteReader.readLine d.inner = y at hag ⊢
    cases hag with
    | lost he => exact .lost he
    | @same answer a b hab =>
      rcases answer with e | _ | line
      · exact .same { h with inner := hab, finished := rfl }
      · exact .same (hR.counted h hab)
      · simp only
        rcases chunkSize line with e | _ | size
        · exact .same (hR.counted h hab)
        · exact hR.readTrailers (hR.counted h hab)
        · exact hR.readChunkData (size + 1) (hR.counted h hab)

theorem takeToEnd (hR : Lockstep lost R) (got : Bytes) (h : ChunkedReader.Over R c d) :
    Agree lost (ChunkedReader.Over R) (ChunkedReader.takeToEnd got c)
      (ChunkedReader.takeToEnd got d) := by
  fun_induction ChunkedReader.takeToEnd got c generalizing d with
  | case1 got c e c' hc =>
    have hag := hR.nextChunk h
    rw [hc] at hag
    rw [ChunkedReader.takeToEnd_eq got d]
    generalize d.nextChunk = y at hag ⊢
    cases hag with
    | lost he => exact .lost he
    | same h' => exact .same h'
  | case2 got c chunk c' hc ih =>
    have hag := hR.nextChunk h
    rw [hc] at hag
    rw [ChunkedReader.takeToEnd_eq got d]
    generalize d.nextChunk = y at hag ⊢
    -- A chunk is no error, so the comparison goes on.
    cases hag with
    | same h' => exact ih h'
  | case3 got c c' hc =>
    have hag := hR.nextChunk h
    rw [hc] at hag
    rw [ChunkedReader.takeToEnd_eq got d]
    generalize d.nextChunk = y at hag ⊢
    cases hag with
    | same h' => exact .same h'

theorem takeLine (hR : Lockstep lost R) (h : ChunkedReader.Over R c d) :
    Agree lost (ChunkedReader.Over R) c.takeLine d.takeLine := by
  fun_induction ChunkedReader.takeLine c generalizing d with
  | case1 c before _ after hcut =>
    rw [ChunkedReader.takeLine_eq d, ← h.pending, hcut]
    exact .same { h with pending := rfl }
  | case2 c hcut e c' hc =>
    have hag := hR.nextChunk h
    rw [hc] at hag
    rw [ChunkedReader.takeLine_eq d, ← h.pending, hcut]
    generalize d.nextChunk = y at hag ⊢
    cases hag with
    | lost he => exact .lost he
    | same h' => exact .same h'
  | case3 c hcut chunk c' hc ih =>
    have hag := hR.nextChunk h
    rw [hc] at hag
    rw [ChunkedReader.takeLine_eq d, ← h.pending, hcut]
    generalize d.nextChunk = y at hag ⊢
    cases hag with
    | same h' => exact ih { h' with pending := congrArg (· ++ chunk) h'.pending }
  | case4 c hcut c' hc hempty =>
    have hag := hR.nextChunk h
    rw [hc] at hag
    rw [ChunkedReader.takeLine_eq d, ← h.pending, hcut]
    generalize d.nextChunk = y at hag ⊢
    cases hag with
    | same h' =>
      simp only [← h'.pending, hempty, if_true]
      exact .same h'
  | case5 c hcut c' hc hne =>
    have hag := hR.nextChunk h
    rw [hc] at hag
    rw [ChunkedReader.takeLine_eq d, ← h.pending, hcut]
    generalize d.nextChunk = y at hag ⊢
    cases hag with
    | same h' =>
      simp only [← h'.pending, hne]
      exact .same { h' with pending := rfl }

/-! ### Requests -/

variable {a : ρ₁} {b : ρ₂}

theorem receiveChunked (hR : Lockstep lost R) (keepTrailers : Bool) (h : R a b) :
    Agree lost R (HttpWire.receiveChunked keepTrailers a)
      (HttpWire.receiveChunked keepTrailers b) := by
  have hag := hR.takeToEnd [] (c := { inner := a, keepTrailers, lastTaken := 0 })
    (d := { inner := b, keepTrailers, lastTaken := 0 }) ⟨h, rfl, rfl, rfl, rfl, rfl⟩
  simp only [HttpWire.receiveChunked, ChunkedReader.readToEnd]
  generalize ChunkedReader.takeToEnd [] { inner := a, keepTrailers, lastTaken := 0 } = x at hag ⊢
  generalize ChunkedReader.takeToEnd [] { inner := b, keepTrailers, lastTaken := 0 } = y at hag ⊢
  cases hag with
  | lost he => exact .lost he
  | @same answer c d h' =>
    cases answer with
    | error e => exact .same h'.inner
    | ok payload =>
      simp only [h'.trailers]
      exact .same h'.inner

theorem receiveBody (hR : Lockstep lost R) (allowTrailers : Bool) (headers : Headers)
    (h : R a b) :
    Agree lost R (HttpWire.receiveBody allowTrailers headers a)
      (HttpWire.receiveBody allowTrailers headers b) := by
  unfold HttpWire.receiveBody
  rcases announcedLength headers with e | _ | n
  · exact .same h
  · simp only
    split
    · have hag := hR.receiveChunked (allowTrailers && headers.listsToken .te "trailers".toList) h
      generalize HttpWire.receiveChunked _ a = x at hag ⊢
      generalize HttpWire.receiveChunked _ b = y at hag ⊢
      cases hag with
      | lost he => exact .lost he
      | @same answer a' b' h' => cases answer <;> exact .same h'
    · exact .same h
  · have hag := hR.readExact (n + 1) h
    simp only
    generalize ByteReader.readExact (n + 1) a = x at hag ⊢
    generalize ByteReader.readExact (n + 1) b = y at hag ⊢
    cases hag with
    | lost he => exact .lost he
    | @same answer a' b' h' => cases answer <;> exact .same h'

theorem receiveBehind (hR : Lockstep lost R) (allowTrailers : Bool) (line : RequestLine)
    (version : Version) (h : R a b) :
    Agree lost R (HttpWire.receiveBehind allowTrailers line version a)
      (HttpWire.receiveBehind allowTrailers line version b) := by
  have hag := hR.readBlock 0 {} h
  unfold HttpWire.receiveBehind
  generalize Headers.readBlock 0 {} a = x at hag ⊢
  generalize Headers.readBlock 0 {} b = y at hag ⊢
  cases hag with
  | lost he => exact .lost he
  | @same answer x y h' =>
    obtain ⟨headers, a'⟩ := x
    obtain ⟨headers', b'⟩ := y
    obtain ⟨rfl, h'⟩ : headers = headers' ∧ R a' b' := h'
    cases answer with
    | error e => exact .same h'
    | ok length =>
      simp only
      cases effectiveMethod? line.method headers with
      | none => exact .same h'
      | some method =>
        have hag := hR.receiveBody allowTrailers headers h'
        simp only
        generalize HttpWire.receiveBody allowTrailers headers a' = x at hag ⊢
        generalize HttpWire.receiveBody allowTrailers headers b' = y at hag ⊢
        cases hag with
        | lost he => exact .lost he
        | @same answer a'' b'' h'' => cases answer <;> exact .same h''

/-- Readers that answer alike receive the same requests. -/
theorem receive {υ : Type} [VersionResolver υ] (hR : Lockstep lost R) (allowTrailers : Bool)
    (versions : υ) (h : R a b) :
    Agree lost (Beside R) (HttpWire.receive allowTrailers versions a)
      (HttpWire.receive allowTrailers versions b) := by
  have hag := hR.firstLine h
  unfold HttpWire.receive
  generalize HttpWire.firstLine a = x at hag ⊢
  generalize HttpWire.firstLine b = y at hag ⊢
  cases hag with
  | lost he => exact .lost he
  | @same answer a' b' h' =>
    rcases answer with e | _ | line
    · exact .same ⟨rfl, h'⟩
    · exact .same ⟨rfl, h'⟩
    · simp only
      cases RequestLine.ofText? line with
      | none => exact .same ⟨rfl, h'⟩
      | some line =>
        simp only
        rcases VersionResolver.resolve line.protocol versions with ⟨e | version, versions⟩
        · exact .same ⟨rfl, h'⟩
        · have hag := hR.receiveBehind allowTrailers line version h'
          simp only
          generalize HttpWire.receiveBehind allowTrailers line version a' = x at hag ⊢
          generalize HttpWire.receiveBehind allowTrailers line version b' = y at hag ⊢
          cases hag with
          | lost he => exact .lost he
          | @same answer a'' b'' h'' => exact .same ⟨rfl, h''⟩

/-! ### Multipart bodies -/

/-- Readers that answer alike, and are never stopped, read the same parts. -/
theorem scan (hR : Lockstep lost R) (hlost : ∀ e, ¬ lost e) (boundary : Text) (raw : Bytes)
    (parts : List Part) (opened : Option Multipart.OpenPart) (position : Nat) (h : R a b) :
    Multipart.scan boundary raw parts opened position a =
      Multipart.scan boundary raw parts opened position b := by
  fun_induction Multipart.scan boundary raw parts opened position a generalizing b with
  | case1 parts opened position a e a' hl =>
    obtain ⟨b', hb, h'⟩ := hR.readLine_eq h hl fun e _ => hlost e
    rw [Multipart.scan_eq, hb]
  | case2 parts position a a' hl =>
    obtain ⟨b', hb, h'⟩ := hR.readLine_eq h hl fun e _ => hlost e
    rw [Multipart.scan_eq, hb]
  | case3 parts position a a' hl p =>
    obtain ⟨b', hb, h'⟩ := hR.readLine_eq h hl fun e _ => hlost e
    rw [Multipart.scan_eq, hb]
  | case4 parts opened position a line a' hl hkind ih =>
    obtain ⟨b', hb, h'⟩ := hR.readLine_eq h hl fun e _ => hlost e
    rw [Multipart.scan_eq boundary raw parts opened position b, hb]
    simp only [hkind]
    rw [← hR.lastTaken h']
    exact ih h'
  | case5 parts opened position a line a' hl kind hkind e hclose =>
    obtain ⟨b', hb, h'⟩ := hR.readLine_eq h hl fun e _ => hlost e
    rw [Multipart.scan_eq, hb]
    simp only [hkind, hclose]
  | case6 parts opened position a line a' hl parts' hclose hkind =>
    obtain ⟨b', hb, h'⟩ := hR.readLine_eq h hl fun e _ => hlost e
    rw [Multipart.scan_eq boundary raw parts opened position b, hb]
    simp only [hkind, hclose]
    rw [← hR.lastTaken h']
  | case7 parts opened position a line a' hl parts' hclose e headers a'' hread hkind =>
    obtain ⟨b', hb, h'⟩ := hR.readLine_eq h hl fun e _ => hlost e
    obtain ⟨b'', hread', -⟩ := hR.readBlock_eq h' hread fun e _ => hlost e
    rw [Multipart.scan_eq, hb]
    simp only [hkind, hclose, hread']
  | case8 parts opened position a line a' hl parts' hclose length headers a'' hread hkind ih =>
    obtain ⟨b', hb, h'⟩ := hR.readLine_eq h hl fun e _ => hlost e
    obtain ⟨b'', hread', h''⟩ := hR.readBlock_eq h' hread fun e _ => hlost e
    rw [Multipart.scan_eq boundary raw parts opened position b, hb]
    simp only [hkind, hclose, hread']
    rw [← hR.lastTaken h']
    exact ih h''

end Lockstep

/-! ### Preserved properties -/

/-- A reader is in lockstep with itself. -/
theorem lockstep_refl (ρ : Type) [ByteReader ρ] :
    Lockstep (fun _ => False) (Eq : ρ → ρ → Prop) where
  readLine h := h ▸ .same rfl
  readExact _ _ _ h := h ▸ .same rfl
  lastTaken h := h ▸ rfl

namespace Preserved

variable {ρ : Type} [ByteReader ρ] {P : ρ → Prop} {r : ρ}

theorem firstLine (hP : Preserved P) (h : P r) : P (HttpWire.firstLine r).2 :=
  (((lockstep_refl ρ).and hP).firstLine ⟨rfl, h⟩).eq.2.2

theorem receiveBody (hP : Preserved P) (allowTrailers : Bool) (headers : Headers) (h : P r) :
    P (HttpWire.receiveBody allowTrailers headers r).2 :=
  (((lockstep_refl ρ).and hP).receiveBody allowTrailers headers ⟨rfl, h⟩).eq.2.2

/-- What every operation preserves is preserved by receiving a request. -/
theorem receive {υ : Type} [VersionResolver υ] (hP : Preserved P) (allowTrailers : Bool)
    (versions : υ) (h : P r) : P (HttpWire.receive allowTrailers versions r).2.2 :=
  (((lockstep_refl ρ).and hP).receive allowTrailers versions ⟨rfl, h⟩).eq.2.2.2

end Preserved

end HttpWire
