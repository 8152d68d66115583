import HttpWire.Proofs.Reading.Operations

/-!
# What a buffered reader counts

What an operation removes from a reader is what remained in front of it less what remains behind it.
A line is counted as what it removes, whatever becomes of it.  So is a block and the rest of the
octets, unless the source stops the operation: then the octets that had been taken are lost and not
counted (`BufferedReader.account_perform`).
-/

namespace HttpWire

/-- A block or the rest of the octets that the source has cut off. -/
inductive Outcome.IsCutOff : Outcome → Prop
  | intro {e : Stop ReceiveError} (h : e.IsTransport) : IsCutOff (.octets (.error e))

/-- A reader whose lines, and whose blocks if they succeed, are counted as what they remove. -/
structure KeepsCount (ρ : Type) [ByteReader ρ] : Prop where
  readLine : ∀ r : ρ, ByteReader.lastTaken (ByteReader.readLine r).2 +
    ByteReader.remaining (ByteReader.readLine r).2 = ByteReader.remaining r
  readExact : ∀ {n bs} {r r' : ρ}, ByteReader.readExact n r = (.ok bs, r') →
    ByteReader.lastTaken r' + ByteReader.remaining r' = ByteReader.remaining r

namespace BufferedReader

variable {σ : Type} [ByteSource σ] {r r' : BufferedReader σ}

/-- A filling that fails has been stopped by the source. -/
theorem isTransport_of_fill {e : Stop ReceiveError} (h : r.fill = (.error e, r')) :
    e.IsTransport := by
  unfold fill at h
  split at h
  · cases h
  · split at h
    · next e _ _ =>
      cases h
      cases e <;> trivial
    · cases h
    · cases h

theorem lastTaken_of_fill {answer : Except (Stop ReceiveError) Bool}
    (h : r.fill = (answer, r')) : r'.lastTaken = r.lastTaken := by
  have hfill := r.lastTaken_fill
  rwa [h] at hfill

theorem remaining_of_fill {answer : Except (Stop ReceiveError) Bool} (h : r.fill = (answer, r')) :
    r'.remaining = ByteSource.available r.source := by
  have hfill := r.remaining_fill
  rwa [h] at hfill

/-- What becomes of the count of octets of which `before` remained in front of the first: it is
that of the octets taken since, or none if the source has cut them off. -/
def Tallies (before counted : Nat) (x : Except (Stop ReceiveError) Bytes × BufferedReader σ) :
    Prop :=
  (∃ e, x.1 = .error e ∧ e.IsTransport ∧ x.2.lastTaken = counted) ∨
    (∀ e, x.1 = .error e → ¬ e.IsTransport) ∧ x.2.lastTaken + x.2.remaining = before

theorem tallies_takeExact (missing : Nat) (got : Bytes) (r : BufferedReader σ) :
    Tallies (got.length + r.remaining) r.lastTaken (takeExact missing got r) := by
  fun_induction takeExact missing got r with
  | case1 missing got r hle =>
    refine .inr ⟨fun e h => ?_, ?_⟩
    · cases h
    · simp only [remaining, List.length_drop]
      omega
  -- What had been taken is given up, and the count is as it was in front of the operation.
  | case2 missing got r _ e r' hf =>
    exact .inl ⟨e, rfl, isTransport_of_fill hf, lastTaken_of_fill hf⟩
  | case3 missing got r _ r' hf got' =>
    have hremaining := remaining_of_fill hf
    refine .inr ⟨fun e h => ?_, ?_⟩
    · cases h
      exact id
    · simp only [remaining, got', List.length_append] at hremaining ⊢
      omega
  | case4 missing got r _ r' hf ih =>
    have hremaining := remaining_of_fill hf
    rw [lastTaken_of_fill hf, hremaining, List.length_append, Nat.add_assoc] at ih
    exact ih

theorem tallies_takeToEnd (got : Bytes) (r : BufferedReader σ) :
    Tallies (got.length + r.remaining) r.lastTaken (takeToEnd got r) := by
  fun_induction takeToEnd got r with
  | case1 got r e r' hf =>
    exact .inl ⟨e, rfl, isTransport_of_fill hf, lastTaken_of_fill hf⟩
  | case2 got r r' hf =>
    have hremaining := remaining_of_fill hf
    refine .inr ⟨fun e h => ?_, ?_⟩
    · cases h
    · simp only [remaining, List.length_append] at hremaining ⊢
      omega
  | case3 got r r' hf ih =>
    have hremaining := remaining_of_fill hf
    rw [lastTaken_of_fill hf, hremaining, List.length_append, Nat.add_assoc] at ih
    exact ih

theorem keepsCount : KeepsCount (BufferedReader σ) where
  readLine r := by
    rw [Nat.add_comm]
    exact remaining_takeLine [] { r with lastTaken := 0 }
  readExact {n bs r r'} h := by
    have htally := tallies_takeExact n [] { r with lastTaken := 0 }
    rw [show takeExact n [] { r with lastTaken := 0 } = _ from h] at htally
    rcases htally with ⟨e, he, -⟩ | ⟨-, hcount⟩
    · cases he
    · rw [List.length_nil, Nat.zero_add] at hcount
      exact hcount

/-- Octets are counted as what they remove, unless they are cut off. -/
theorem Tallies.cases {before : Nat} {x : Except (Stop ReceiveError) Bytes × BufferedReader σ}
    (h : Tallies (0 + before) 0 x) :
    (Outcome.octets x.1).IsCutOff ∧ x.2.lastTaken = 0 ∨
      ¬ (Outcome.octets x.1).IsCutOff ∧ x.2.lastTaken + x.2.remaining = before := by
  rw [Nat.zero_add] at h
  rcases h with ⟨e, he, htransport, hcount⟩ | ⟨hno, hcount⟩
  · rw [he]
    exact .inl ⟨.intro htransport, hcount⟩
  · refine .inr ⟨?_, hcount⟩
    generalize ho : Outcome.octets x.1 = outcome
    rintro ⟨htransport⟩
    exact hno _ (Outcome.octets.inj ho) htransport

/-- **What an operation counts.**  A line counts what it removes.  A block and the rest of the
octets do so too, unless the source cuts them off, and then count nothing. -/
theorem account_perform (r : BufferedReader σ) (op : Operation) :
    (op.perform r).1.IsCutOff ∧ (op.perform r).2.lastTaken = 0 ∨
      ¬ (op.perform r).1.IsCutOff ∧
        (op.perform r).2.lastTaken + (op.perform r).2.remaining = r.remaining := by
  cases op with
  | line =>
    refine .inr ⟨?_, keepsCount.readLine r⟩
    generalize ho : (Operation.perform .line r).1 = outcome
    rintro ⟨-⟩
    cases ho
  | exact count => exact (tallies_takeExact count [] { r with lastTaken := 0 }).cases
  | toEnd => exact (tallies_takeToEnd [] { r with lastTaken := 0 }).cases

end BufferedReader

end HttpWire
