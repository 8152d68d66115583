import HttpWire.Connection.Basic

/-!
# One step of each loop

The loops over lines, chunks, parts and exchanges carry the reason for which they end.  The equations
here say what one step of each does without it, so that the step can be rewritten by the answer it
gets.
-/

namespace HttpWire

/-- One step of taking a line. -/
theorem BufferedReader.takeLine_eq {σ : Type} [ByteSource σ] (line : Bytes)
    (r : BufferedReader σ) :
    takeLine line r =
      match splitFirst (· == lineFeed) r.buffer with
      | some (before, _, after) =>
        (r.charset.answer (dropReturn (line ++ before)),
          { r with buffer := after, lastTaken := r.lastTaken + before.length + 1 })
      | none =>
        match r.advance with
        | (.error e, r') => (.error e, r')
        | (.ok false, r') =>
          if r'.lastTaken = 0 then (.ok none, r') else (r'.charset.answer (line ++ r.buffer), r')
        | (.ok true, r') => takeLine (line ++ r.buffer) r' := by
  rw [takeLine]
  rcases splitFirst (· == lineFeed) r.buffer with _ | ⟨before, sep, after⟩
  · dsimp only
    split <;> simp_all
  · rfl

theorem BufferedReader.takeExact_eq {σ : Type} [ByteSource σ] (missing : Nat) (got : Bytes)
    (r : BufferedReader σ) :
    takeExact missing got r =
      if missing ≤ r.buffer.length then
        (.ok (got ++ r.buffer.take missing),
          { r with buffer := r.buffer.drop missing, lastTaken := got.length + missing })
      else
        match r.fill with
        | (.error e, r') => (.error e, r')
        | (.ok false, r') =>
          (.error (.fault (.truncated ((got ++ r.buffer).length + (missing - r.buffer.length))
            (got ++ r.buffer).length)), { r' with lastTaken := (got ++ r.buffer).length })
        | (.ok true, r') => takeExact (missing - r.buffer.length) (got ++ r.buffer) r' := by
  rw [takeExact]
  split
  · rfl
  · split <;> simp_all

theorem BufferedReader.takeToEnd_eq {σ : Type} [ByteSource σ] (got : Bytes)
    (r : BufferedReader σ) :
    takeToEnd got r =
      match r.fill with
      | (.error e, r') => (.error e, r')
      | (.ok false, r') =>
        (.ok (got ++ r.buffer), { r' with lastTaken := (got ++ r.buffer).length })
      | (.ok true, r') => takeToEnd (got ++ r.buffer) r' := by
  rw [takeToEnd]
  split <;> simp_all

section

variable {ρ : Type} [ByteReader ρ]

theorem firstLine_eq (r : ρ) :
    firstLine r =
      match ByteReader.readLine r with
      | (.ok (some []), r') => firstLine r'
      | answer => answer := by
  rw [firstLine]
  split <;> simp_all

theorem Headers.readBlock_eq (taken : Nat) (h : Headers) (r : ρ) :
    readBlock taken h r =
      match ByteReader.readLine r with
      | (.error e, r') => (.error e, h, r')
      | (.ok none, r') =>
        (.error (.fault (.truncated (taken + ByteReader.lastTaken r' + 2)
          (taken + ByteReader.lastTaken r'))), h, r')
      | (.ok (some []), r') => (.ok (taken + ByteReader.lastTaken r'), h, r')
      | (.ok (some line), r') =>
        match Field.ofLine line with
        | .error e => (.error (.fault (.header e)), h, r')
        | .ok f => readBlock (taken + ByteReader.lastTaken r') (h.append f) r' := by
  rw [readBlock]
  split
  · next hl => rw [hl]
  · next hl => rw [hl]
  · next hl => rw [hl]
  · next line r' hne hl =>
    rw [hl]
    cases line with
    | nil => exact absurd rfl hne
    | cons c cs => cases hf : Field.ofLine (c :: cs) <;> simp [hf]

theorem ChunkedReader.takeToEnd_eq (got : Bytes) (r : ChunkedReader ρ) :
    takeToEnd got r =
      match r.nextChunk with
      | (.error e, r') => (.error e, r')
      | (.ok (some chunk), r') => takeToEnd (got ++ chunk) r'
      | (.ok none, r') => (.ok got, r') := by
  rw [takeToEnd]
  split <;> simp_all

theorem ChunkedReader.takeLine_eq (r : ChunkedReader ρ) :
    r.takeLine =
      match splitFirst (· == lineFeed) r.pending with
      | some (before, _, after) =>
        (.ok (some (Utf8.decodeLossy (dropReturn before))), { r with pending := after })
      | none =>
        match r.nextChunk with
        | (.error e, r') => (.error e, r')
        | (.ok (some chunk), r') => takeLine { r' with pending := r'.pending ++ chunk }
        | (.ok none, r') =>
          if r'.pending.isEmpty then (.ok none, r')
          else (.ok (some (Utf8.decodeLossy r'.pending)), { r' with pending := [] }) := by
  rw [takeLine]
  rcases splitFirst (· == lineFeed) r.pending with _ | ⟨before, sep, after⟩
  · dsimp only
    split <;> simp_all
  · rfl

theorem Multipart.scan_eq (boundary : Text) (raw : Bytes) (parts : List Part)
    (opened : Option OpenPart) (position : Nat) (r : ρ) :
    scan boundary raw parts opened position r =
      match ByteReader.readLine r with
      | (.error e, _) => .error e.receiveError
      | (.ok none, _) =>
        match opened with
        | none => .error (.multipart (.noDelimiter boundary))
        | some p => (close raw parts p raw.length).map fun parts => { parts }
      | (.ok (some line), r') =>
        match Delimiter.ofLine? boundary line with
        | none => scan boundary raw parts opened (position + ByteReader.lastTaken r') r'
        | some kind =>
          match closeBefore raw parts opened position with
          | .error e => .error e
          | .ok parts =>
            match kind with
            | .closing => .ok { parts, epilogue := raw.drop (position + ByteReader.lastTaken r') }
            | .opening =>
              match Headers.readBlock 0 {} r' with
              | (.error e, _, _) => .error e.receiveError
              | (.ok length, headers, r'') =>
                scan boundary raw parts
                  (some { headers, start := position + ByteReader.lastTaken r'
                          content := position + ByteReader.lastTaken r' + length })
                  (position + ByteReader.lastTaken r' + length) r'' := by
  rw [scan.eq_def]
  split
  · next h => rw [h]
  · next h =>
    cases opened with
    | none => rw [h]
    | some p => rw [h]
  · next line r' h =>
    rw [h]
    simp only
    cases Delimiter.ofLine? boundary line with
    | none => rfl
    | some kind =>
      cases closeBefore raw parts opened position with
      | error e => rfl
      | ok parts =>
        cases kind with
        | closing => rfl
        | opening =>
          simp only
          split <;> simp_all

end

theorem Connection.serve_eq {υ : Type} [VersionResolver υ] (s : Service) (stage : Stage)
    (c : Connection υ) :
    serve s stage c =
      if c.timeline.isOver then (.unfinished, c)
      else if !c.client.subject.isConnected then c.close
      else
        match c.exchange s (stage.idleTimeout s.settings) with
        | (.handled true, c') => serve s (.kept 0) c'
        | (.handled false, c') => c'.close
        | (.noRequest, c') =>
          match stage.lookAgain? s.settings with
          | some stage' => serve s stage' (c'.onTimeline (·.pass s.settings.backoff))
          | none => c'.close
        | (.idle, c') => c'.close
        | (.cancelled, c') => c'.close
        | (.failed e, c') => (c'.notify (.exchangeFailed e)).close
        | (.stalled, c') => (.unfinished, c') := by
  rw [serve]
  split
  · rfl
  · split
    · rfl
    · split <;> simp_all
      split <;> simp_all

end HttpWire
