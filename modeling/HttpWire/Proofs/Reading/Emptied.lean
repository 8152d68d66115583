import HttpWire.Proofs.Reading.Flatten

/-!
# Readers at their end

Looking for a request takes something from a reader as long as there is anything to take
(`FlatReader.length_rest_receive`).  With nothing pending it fills the empty buffer once, and that
meets the end or is stopped (`BufferedReader.receive_of_empty`); behind the end, the source is not
read again (`BufferedReader.receive_of_atEnd`).
-/

namespace HttpWire

/-! ### Octets that are taken -/

namespace FlatReader

variable {f : FlatReader}

/-- A line that is read takes something, if there is anything. -/
theorem length_rest_readLine (h : f.rest ≠ []) :
    (ByteReader.readLine f).2.rest.length < f.rest.length := by
  show f.readLine.2.rest.length < _
  unfold readLine
  split
  · next hs => exact length_lt_of_splitFirst hs
  · exact List.length_pos_iff.mpr h

/-- Looking for a request takes something, if there is anything. -/
theorem length_rest_receive {υ : Type} [VersionResolver υ] (allowTrailers : Bool) (versions : υ)
    (h : f.rest ≠ []) : (receive allowTrailers versions f).2.2.rest.length < f.rest.length := by
  have hline : ByteReader.remaining (firstLine f).2 < f.rest.length := by
    rw [firstLine_eq]
    have hread := length_rest_readLine h
    split
    · next f' hl =>
      rw [hl] at hread
      exact Nat.lt_of_le_of_lt (remaining_firstLine_le f') hread
    · exact hread
  show ByteReader.remaining (receive allowTrailers versions f).2.2 < _
  unfold receive
  split
  · next hl => rwa [hl] at hline
  · next hl => rwa [hl] at hline
  · next hl =>
    rw [hl] at hline
    split
    · exact hline
    · split
      · exact hline
      · exact Nat.lt_of_le_of_lt (remaining_receiveBehind_le _ _ _ _) hline

end FlatReader

namespace BufferedReader

variable {σ : Type} [ByteSource σ] {r r' : BufferedReader σ}

/-! ### Filling an empty buffer -/

/-- A filling that finds nothing has met the end. -/
theorem atEnd_of_fill_end (h : r.fill = (.ok false, r')) : r'.atEnd = true ∧ r'.buffer = [] := by
  unfold fill at h
  split at h
  · next hend =>
    cases h
    exact ⟨hend, rfl⟩
  · split at h
    · cases h
    · cases h
      exact ⟨rfl, rfl⟩
    · cases h

/-- A filling is stopped with the read that it makes. -/
theorem fill_of_stop {e : Stop IoError} {source : σ} (hend : r.atEnd = false)
    (hread : ByteSource.read r.capacity r.source = (.error e, source)) :
    r.fill = (.error (e.map .io), { r with source, buffer := [] }) := by
  rw [fill, if_neg (ne_true_of_eq_false hend), hread]

/-- With an empty buffer, reading a line begins with filling it. -/
theorem readLine_of_empty (hbuffer : r.buffer = []) :
    r.readLine =
      match fill { r with lastTaken := 0 } with
      | (.error e, r') => (.error e, r')
      | (.ok false, r') => (.ok none, r')
      | (.ok true, r') => takeLine [] r' := by
  obtain ⟨source, buffer, capacity, charset, lastTaken, atEnd, hpos⟩ := r
  obtain rfl : buffer = [] := hbuffer
  generalize hempty : (⟨source, [], capacity, charset, 0, atEnd, hpos⟩ : BufferedReader σ) = r
  have htaken : r.fill.2.lastTaken = 0 := by
    rw [lastTaken_fill, ← hempty]
  have hadvance : r.advance = r.fill := by
    rw [← hempty]
    rfl
  rw [readLine, hempty, takeLine_eq, hadvance, show r.buffer = [] by rw [← hempty]]
  generalize r.fill = x at htaken ⊢
  obtain ⟨answer, r'⟩ := x
  rcases answer with e | _ | _
  · rfl
  · exact if_pos htaken
  · rfl

/-- With an empty buffer, a request is looked for as far as filling allows. -/
theorem receive_of_fill {υ : Type} [VersionResolver υ] (allowTrailers : Bool) (versions : υ)
    (hbuffer : r.buffer = []) :
    (fill { r with lastTaken := 0 } = (.ok false, r') →
      receive allowTrailers versions r = (.ok (.nothing .endOfInput), versions, r')) ∧
    ∀ e, fill { r with lastTaken := 0 } = (.error e, r') →
      receive allowTrailers versions r = (.error e, versions, r') := by
  have hline := readLine_of_empty hbuffer
  constructor
  · intro hfill
    rw [hfill] at hline
    rw [receive, firstLine_eq, show ByteReader.readLine r = _ from hline]
  · intro e hfill
    rw [hfill] at hline
    rw [receive, firstLine_eq, show ByteReader.readLine r = _ from hline]

/-- Behind the end, the source is not read, and there is no request. -/
theorem receive_of_atEnd {υ : Type} [VersionResolver υ] (allowTrailers : Bool) (versions : υ)
    (hbuffer : r.buffer = []) (hend : r.atEnd = true) :
    receive allowTrailers versions r =
      (.ok (.nothing .endOfInput), versions, { r with lastTaken := 0 }) := by
  apply (receive_of_fill allowTrailers versions hbuffer).1
  rw [fill, if_pos hend, hbuffer]

variable [StreamSource σ]

/-- With nothing pending, filling the buffer does not succeed. -/
theorem ne_fill_of_pending (h : r.pending = []) : r.fill ≠ (.ok true, r') := by
  intro hfill
  obtain ⟨hpending, -, -⟩ := pending_of_fill (under_any r) hfill
  have hbuffer : r'.buffer ≠ [] := by
    unfold fill at hfill
    split at hfill
    · cases hfill
    · split at hfill
      · cases hfill
      · cases hfill
      · cases hfill
        exact List.cons_ne_nil _ _
  rw [h, pending] at hpending
  exact hbuffer (List.append_eq_nil_iff.mp (List.append_eq_nil_iff.mp hpending.symm).2).1

theorem buffer_of_pending (h : r.pending = []) : r.buffer = [] :=
  (List.append_eq_nil_iff.mp h).1

/-- **With nothing pending, looking for a request meets the end or is stopped.** -/
theorem receive_of_pending {υ : Type} [VersionResolver υ] (allowTrailers : Bool) (versions : υ)
    (h : r.pending = []) :
    (∃ r', fill { r with lastTaken := 0 } = (.ok false, r') ∧ r'.atEnd = true ∧ r'.buffer = [] ∧
      receive allowTrailers versions r = (.ok (.nothing .endOfInput), versions, r')) ∨
    ∃ e r', fill { r with lastTaken := 0 } = (.error e, r') ∧
      receive allowTrailers versions r = (.error e, versions, r') := by
  have hbuffer := buffer_of_pending h
  have hne (r' : BufferedReader σ) := @ne_fill_of_pending σ _ { r with lastTaken := 0 } r' _ h
  rcases hfill : fill { r with lastTaken := 0 } with ⟨e | _ | _, r'⟩
  · exact .inr ⟨e, r', rfl, (receive_of_fill allowTrailers versions hbuffer).2 e hfill⟩
  · obtain ⟨hend, hempty⟩ := atEnd_of_fill_end hfill
    exact .inl ⟨r', rfl, hend, hempty, (receive_of_fill allowTrailers versions hbuffer).1 hfill⟩
  · exact absurd hfill (hne r')

end BufferedReader

end HttpWire
