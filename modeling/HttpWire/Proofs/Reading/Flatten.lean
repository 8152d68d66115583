import HttpWire.Proofs.Reading.Lockstep
import HttpWire.Proofs.Reading.Stream
import HttpWire.Proofs.Text.Split
import HttpWire.Reading.Flat

/-!
# The buffered reader is a flat reader

What a buffered reader can still hand out is its buffer and, unless the end has been met, what its
source will deliver (`pending`).  Every operation does to that string what the flat reader does, in
whatever pieces the source delivers it and whatever the capacity is (`lockstep_flatten`).  The
invariant of each loop is that the octets taken so far and the pending ones together are the string
with which the operation began.
-/

namespace HttpWire

/-- Errors that come from the transport and say nothing about the octets. -/
def Stop.IsTransport : Stop ReceiveError → Prop
  | .fault (.io _) => True
  | .fault _ => False
  | .interrupted _ => True

/-- The errors by which a reader may be stopped in a regime. -/
def Regime.lost {σ : Type} [ByteSource σ] (g : Regime σ) (e : Stop ReceiveError) : Prop :=
  g.mayStop ∧ e.IsTransport

namespace BufferedReader

variable {σ : Type} [ByteSource σ]

/-- The source of the reader is in a regime. -/
def Under (g : Regime σ) (r : BufferedReader σ) : Prop :=
  if r.atEnd then g.isSpent r.source else g.isOpen r.source

/-- No read of the source will ever be stopped. -/
def NeverFails (r : BufferedReader σ) : Prop :=
  ∃ g : Regime σ, ¬ g.mayStop ∧ r.Under g

theorem under_any (r : BufferedReader σ) : r.Under (Regime.any σ) := by
  unfold Under
  split <;> trivial

variable [StreamSource σ]

/-- The octets that a reader can still hand out. -/
def pending (r : BufferedReader σ) : Bytes :=
  r.buffer ++ if r.atEnd then [] else StreamSource.upcoming r.source

/-- The flat reader over the same octets. -/
def flatten (r : BufferedReader σ) : FlatReader :=
  { rest := r.pending, charset := r.charset, lastTaken := r.lastTaken }

/-- A reader in a regime beside the flat reader over its octets. -/
def FlattensTo (g : Regime σ) (r : BufferedReader σ) (f : FlatReader) : Prop :=
  r.Under g ∧ r.flatten = f

/-! ### Filling -/

/-- What filling comes to: data, the end, or a stop. -/
theorem fill_cases {g : Regime σ} {r : BufferedReader σ} (hg : r.Under g) :
    (∃ r', r.fill = (.ok true, r') ∧ r.pending = r.buffer ++ r'.pending ∧
        r'.charset = r.charset ∧ r'.Under g) ∨
      (∃ r', r.fill = (.ok false, r') ∧ r.pending = r.buffer ∧ r'.pending = [] ∧
        r'.charset = r.charset ∧ r'.Under g) ∨
      ∃ e r', r.fill = (.error e, r') ∧ g.lost e := by
  unfold fill
  cases hend : r.atEnd with
  | true =>
    -- The end has been met before, and the source is not read again.
    refine .inr (.inl ⟨_, rfl, ?_, ?_, rfl, ?_⟩)
    · simp [pending, hend]
    · simp [pending]
    · simpa [Under, hend] using hg
  | false =>
    simp only [Under, hend, Bool.false_eq_true, if_false] at hg
    rw [if_neg (by simp)]
    obtain ⟨b, bs, s', hr, hs'⟩ | ⟨s', hr, hs'⟩ | ⟨hm, e, s', hr⟩ := g.read hg r.capacity_pos
    · refine .inl ⟨{ r with source := s', buffer := b :: bs }, by simp only [hr, hend],
        ?_, rfl, ?_⟩
      · simp [pending, hend, StreamSource.upcoming_of_read hr]
      · simpa [Under, hend] using hs'
    · refine .inr (.inl ⟨{ r with source := s', buffer := [], atEnd := true }, by simp only [hr],
        ?_, ?_, rfl, ?_⟩)
      · simp [pending, hend, StreamSource.upcoming_of_end r.capacity_pos hr]
      · simp [pending]
      · simpa [Under] using hs'
    · refine .inr (.inr ⟨e.map .io, { r with source := s', buffer := [] }, by simp only [hr, hend],
        hm, ?_⟩)
      cases e <;> trivial

/-- A filling that is stopped is stopped by the transport. -/
theorem lost_of_fill {g : Regime σ} {r r' : BufferedReader σ} {e : Stop ReceiveError}
    (hg : r.Under g) (h : r.fill = (.error e, r')) : g.lost e := by
  obtain ⟨_, hf, -⟩ | ⟨_, hf, -⟩ | ⟨e', _, hf, he⟩ := fill_cases hg
  · rw [hf] at h; cases h
  · rw [hf] at h; cases h
  · rw [hf] at h; cases h; exact he

/-- A filling that meets the end leaves nothing. -/
theorem pending_of_fill_end {g : Regime σ} {r r' : BufferedReader σ} (hg : r.Under g)
    (h : r.fill = (.ok false, r')) :
    r.pending = r.buffer ∧ r'.pending = [] ∧ r'.charset = r.charset ∧ r'.Under g := by
  obtain ⟨_, hf, -⟩ | ⟨_, hf, hr⟩ | ⟨_, _, hf, -⟩ := fill_cases hg
  · rw [hf] at h; cases h
  · rw [hf] at h; cases h; exact hr
  · rw [hf] at h; cases h

/-- A filling that succeeds takes the next octets from those of the source. -/
theorem pending_of_fill {g : Regime σ} {r r' : BufferedReader σ} (hg : r.Under g)
    (h : r.fill = (.ok true, r')) :
    r.pending = r.buffer ++ r'.pending ∧ r'.charset = r.charset ∧ r'.Under g := by
  obtain ⟨_, hf, hr⟩ | ⟨_, hf, -⟩ | ⟨_, _, hf, -⟩ := fill_cases hg
  · rw [hf] at h; cases h; exact hr
  · rw [hf] at h; cases h
  · rw [hf] at h; cases h

omit [StreamSource σ] in
theorem lastTaken_of_advance {r r' : BufferedReader σ}
    {answer : Except (Stop ReceiveError) Bool} (h : r.advance = (answer, r')) :
    r'.lastTaken = r.lastTaken + r.buffer.length := by
  have := lastTaken_fill { r with lastTaken := r.lastTaken + r.buffer.length }
  rwa [show fill { r with lastTaken := r.lastTaken + r.buffer.length } = _ from h] at this

theorem lost_of_advance {g : Regime σ} {r r' : BufferedReader σ} {e : Stop ReceiveError}
    (hg : r.Under g) (h : r.advance = (.error e, r')) : g.lost e :=
  lost_of_fill (r := { r with lastTaken := r.lastTaken + r.buffer.length }) hg h

theorem pending_of_advance_end {g : Regime σ} {r r' : BufferedReader σ} (hg : r.Under g)
    (h : r.advance = (.ok false, r')) :
    r.pending = r.buffer ∧ r'.pending = [] ∧ r'.charset = r.charset ∧ r'.Under g :=
  pending_of_fill_end (r := { r with lastTaken := r.lastTaken + r.buffer.length }) hg h

theorem pending_of_advance {g : Regime σ} {r r' : BufferedReader σ} (hg : r.Under g)
    (h : r.advance = (.ok true, r')) :
    r.pending = r.buffer ++ r'.pending ∧ r'.charset = r.charset ∧ r'.Under g :=
  pending_of_fill (r := { r with lastTaken := r.lastTaken + r.buffer.length }) hg h

/-! ### The loops -/

/-- The rest of a line is what the flat reader takes from the line's beginning and the pending
octets. -/
theorem takeLine_flatten {g : Regime σ} {line : Bytes} {r : BufferedReader σ} (hg : r.Under g)
    (hline : splitFirst (· == lineFeed) line = none) (ht : r.lastTaken = line.length) :
    Agree g.lost (FlattensTo g) (takeLine line r)
      (FlatReader.readLine { r.flatten with rest := line ++ r.pending }) := by
  -- The part of the line that has been taken has no line feed in it, so the first line feed of the
  -- whole string is that of the buffer, or lies behind the buffer.
  fun_induction takeLine line r with
  | case1 line r before sep after hs =>
    have hcut : splitFirst (· == lineFeed) (line ++ r.pending) =
        some (line ++ before, sep,
          after ++ if r.atEnd then [] else StreamSource.upcoming r.source) := by
      rw [splitFirst_append_of_none hline, pending, splitFirst_append_of_some hs]
      rfl
    simp only [FlatReader.readLine, hcut]
    refine .same ⟨hg, ?_⟩
    simp only [flatten, pending, ht, List.length_append]
  | case2 line r hs e r' ha => exact .lost (lost_of_advance hg ha)
  | case3 line r hs r' ha h0 =>
    -- At the end, with nothing taken, there is no line.
    obtain ⟨hp, hp', hc, hg'⟩ := pending_of_advance_end hg ha
    have ht' := lastTaken_of_advance ha
    have hnil : line ++ r.pending = [] := by
      rw [List.append_eq_nil_iff, ← List.length_eq_zero_iff, ← List.length_eq_zero_iff, hp]
      omega
    simp only [FlatReader.readLine, hnil, splitFirst, List.isEmpty_nil, if_true]
    refine .same ⟨hg', ?_⟩
    simp only [flatten, hp', hc, h0, List.length_nil]
  | case4 line r hs r' ha h0 =>
    -- At the end, what has been taken is the last line.
    obtain ⟨hp, hp', hc, hg'⟩ := pending_of_advance_end hg ha
    have ht' := lastTaken_of_advance ha
    have hlen : (line ++ r.buffer).length = r'.lastTaken := by
      rw [List.length_append, ht', ht]
    have hcut : splitFirst (· == lineFeed) (line ++ r.buffer) = none := by
      rw [splitFirst_append_of_none hline, hs]
      rfl
    have hne : (line ++ r.buffer).isEmpty = false := by
      rw [List.isEmpty_eq_false_iff, ← List.length_pos_iff]
      omega
    simp only [FlatReader.readLine, hp, hcut, hne, Bool.false_eq_true, if_false, hc, flatten]
    refine .same ⟨hg', ?_⟩
    simp only [flatten, hp', hc, hlen]
  | case5 line r hs r' ha ih =>
    -- The buffer joins what has been taken, and there is no line feed in either.
    obtain ⟨hp, hc, hg'⟩ := pending_of_advance hg ha
    have ht' := lastTaken_of_advance ha
    have hcut : splitFirst (· == lineFeed) (line ++ r.buffer) = none := by
      rw [splitFirst_append_of_none hline, hs]
      rfl
    have h := ih hg' hcut (by rw [ht', ht, List.length_append])
    rw [List.append_assoc, ← hp] at h
    simp only [FlatReader.readLine, flatten] at h ⊢
    rwa [hc] at h

/-- The rest of a block is what the flat reader takes from the block's beginning and the pending
octets. -/
theorem takeExact_flatten {g : Regime σ} (missing : Nat) (got : Bytes) {r : BufferedReader σ}
    (hg : r.Under g) :
    Agree g.lost (FlattensTo g) (takeExact missing got r)
      (FlatReader.readExact (got.length + missing)
        { r.flatten with rest := got ++ r.pending }) := by
  fun_induction takeExact missing got r with
  | case1 missing got r hle =>
    have hle' : got.length + missing ≤ (got ++ r.pending).length := by
      simp only [pending, List.length_append]
      omega
    have htake : (got ++ r.pending).take (got.length + missing) = got ++ r.buffer.take missing := by
      rw [List.take_length_add_append, pending, List.take_append_of_le_length hle]
    have hdrop : (got ++ r.pending).drop (got.length + missing) =
        r.buffer.drop missing ++ if r.atEnd then [] else StreamSource.upcoming r.source := by
      rw [List.drop_length_add_append, pending, List.drop_append_of_le_length hle]
    simp only [FlatReader.readExact, if_pos hle', htake, hdrop, Nat.min_eq_left hle']
    exact .same ⟨hg, rfl⟩
  | case2 missing got r hlt e r' hf => exact .lost (lost_of_fill hg hf)
  | case3 missing got r hlt r' hf got' =>
    -- The end comes too early, and the flat reader finds too little as well.
    obtain ⟨hp, hp', hc, hg'⟩ := pending_of_fill_end hg hf
    have hlt' : (got ++ r.buffer).length < got.length + missing := by
      rw [List.length_append]
      omega
    have hmissing : got'.length + (missing - r.buffer.length) = got.length + missing := by
      simp only [got', List.length_append]
      omega
    have hdrop : (got ++ r.buffer).drop (got.length + missing) = [] :=
      List.drop_eq_nil_of_le (Nat.le_of_lt hlt')
    simp only [FlatReader.readExact, hp, if_neg (Nat.not_le.mpr hlt'), hdrop, hmissing,
      Nat.min_eq_right (Nat.le_of_lt hlt')]
    refine .same ⟨hg', ?_⟩
    show FlatReader.mk r'.pending r'.charset got'.length = _
    rw [hp', hc]
    rfl
  | case4 missing got r hlt r' hf ih =>
    obtain ⟨hp, hc, hg'⟩ := pending_of_fill hg hf
    have h := ih hg'
    have hmissing : (got ++ r.buffer).length + (missing - r.buffer.length) =
        got.length + missing := by
      rw [List.length_append]
      omega
    rw [List.append_assoc, ← hp, hmissing] at h
    simp only [FlatReader.readExact, flatten] at h ⊢
    rwa [hc] at h

/-- All that is left is what the flat reader takes from what has been taken and the pending
octets. -/
theorem takeToEnd_flatten {g : Regime σ} {got : Bytes} {r : BufferedReader σ} (hg : r.Under g) :
    Agree g.lost (FlattensTo g) (takeToEnd got r)
      (FlatReader.readToEnd { r.flatten with rest := got ++ r.pending }) := by
  fun_induction takeToEnd got r with
  | case1 got r e r' hf => exact .lost (lost_of_fill hg hf)
  | case2 got r r' hf =>
    obtain ⟨hp, hp', hc, hg'⟩ := pending_of_fill_end hg hf
    simp only [FlatReader.readToEnd, hp]
    refine .same ⟨hg', ?_⟩
    show FlatReader.mk r'.pending r'.charset (got ++ r.buffer).length = _
    rw [hp', hc]
    rfl
  | case3 got r r' hf ih =>
    obtain ⟨hp, hc, hg'⟩ := pending_of_fill hg hf
    have h := ih hg'
    rw [List.append_assoc, ← hp] at h
    simp only [FlatReader.readToEnd, flatten] at h ⊢
    rwa [hc] at h

/-- **The buffered reader refines the flat reader.**  In every regime the operations of a buffered
reader give the answers of the flat reader over the pending octets, unless the transport stops
them, and leave the same octets pending. -/
theorem lockstep_flatten (g : Regime σ) : Lockstep g.lost (FlattensTo (σ := σ) g) where
  readLine := by
    rintro r f ⟨hg, rfl⟩
    exact takeLine_flatten (r := { r with lastTaken := 0 }) hg rfl rfl
  readExact := by
    rintro n r f ⟨hg, rfl⟩
    have h := takeExact_flatten n [] (r := { r with lastTaken := 0 }) hg
    rwa [List.length_nil, Nat.zero_add] at h
  lastTaken := by
    rintro r f ⟨-, rfl⟩
    rfl

/-- A reader in a regime stands beside its flat form. -/
theorem flattensTo {g : Regime σ} {r : BufferedReader σ} (hg : r.Under g) :
    FlattensTo g r r.flatten :=
  ⟨hg, rfl⟩

/-! ### What readers preserve -/

omit [StreamSource σ] in
/-- A property is preserved by all operations if filling preserves it and so does taking from the
front of the buffer. -/
theorem preserved_of_fill {P : BufferedReader σ → Prop}
    (htake : ∀ r buffer n, buffer <:+ r.buffer → P r → P { r with buffer, lastTaken := n })
    (hfill : ∀ r, P r → P r.fill.2) : Preserved P := by
  have hcount (r : BufferedReader σ) (n : Nat) (h : P r) : P { r with lastTaken := n } :=
    htake r r.buffer n List.suffix_rfl h
  have hfill' {r r' : BufferedReader σ} {a} (h : P r) (hf : r.fill = (a, r')) : P r' := by
    have := hfill r h
    rwa [hf] at this
  have hline (line : Bytes) (r : BufferedReader σ) (h : P r) : P (takeLine line r).2 := by
    fun_induction takeLine line r with
    | case1 line r before sep after hs =>
      refine htake r after _ ⟨before ++ [sep], ?_⟩ h
      rw [splitFirst_eq_some hs, List.append_assoc, List.singleton_append]
    | case2 line r hs e r' ha => exact hfill' (hcount r _ h) ha
    | case3 line r hs r' ha h0 => exact hfill' (hcount r _ h) ha
    | case4 line r hs r' ha h0 => exact hfill' (hcount r _ h) ha
    | case5 line r hs r' ha ih => exact ih (hfill' (hcount r _ h) ha)
  have hexact (missing : Nat) (got : Bytes) (r : BufferedReader σ) (h : P r) :
      P (takeExact missing got r).2 := by
    fun_induction takeExact missing got r with
    | case1 missing got r hle => exact htake r _ _ (List.drop_suffix ..) h
    | case2 missing got r hlt e r' hf => exact hfill' h hf
    | case3 missing got r hlt r' hf => exact hcount r' _ (hfill' h hf)
    | case4 missing got r hlt r' hf ih => exact ih (hfill' h hf)
  exact ⟨fun r h => hline [] _ (hcount r 0 h), fun n r h => hexact n [] _ (hcount r 0 h)⟩

omit [StreamSource σ] in
/-- What every read of the source preserves is preserved by the reader. -/
theorem preserved_source {Q : σ → Prop} (hQ : ∀ n s, Q s → Q (ByteSource.read n s).2) :
    Preserved fun r : BufferedReader σ => Q r.source := by
  apply preserved_of_fill
  · exact fun _ _ _ _ h => h
  · intro r h
    have hread := hQ r.capacity r.source h
    unfold fill
    split
    · exact h
    · split <;> next hr =>
        rw [hr] at hread
        exact hread

/-- Once the end has been met, nothing waits in the buffer. -/
def Drained (r : BufferedReader σ) : Prop :=
  r.atEnd = true → r.buffer = []

omit [StreamSource σ] in
/-- A drained reader stays drained. -/
theorem preserved_drained : Preserved (Drained (σ := σ)) := by
  apply preserved_of_fill
  · intro r buffer n hsuffix h hend
    rw [h hend] at hsuffix
    exact List.suffix_nil.mp hsuffix
  · intro r h hend
    unfold fill at hend ⊢
    split
    · rfl
    · next hne =>
      rw [if_neg hne] at hend
      rcases hr : ByteSource.read r.capacity r.source with ⟨e | _ | ⟨b, bs⟩, s⟩
      · simp only [hr] at hend ⊢
      · simp only [hr] at hend ⊢
      -- A read that returns data does not meet the end.
      · simp only [hr] at hend
        exact absurd hend hne

/-! ### Requests -/

/-- What is received without an error is what the flat reader receives. -/
theorem receive_flatten {υ : Type} [VersionResolver υ] {allowTrailers : Bool} {versions : υ}
    {r : BufferedReader σ} {received : Received}
    (h : (receive allowTrailers versions r).1 = .ok received) :
    (receive allowTrailers versions r.flatten) =
      (.ok received, (receive allowTrailers versions r).2.1,
        (receive allowTrailers versions r).2.2.flatten) := by
  have hag := (lockstep_flatten (Regime.any σ)).receive allowTrailers versions
    (flattensTo r.under_any)
  obtain ⟨heq, hv, -, hf⟩ := hag.eq_of_ok h
  exact Prod.ext heq (Prod.ext hv.symm hf.symm)

/-- A reader whose source never fails receives what the flat reader does. -/
theorem receive_eq_of_neverFails {υ : Type} [VersionResolver υ] (allowTrailers : Bool)
    (versions : υ) {r : BufferedReader σ} (hr : r.NeverFails) :
    (receive allowTrailers versions r).1 = (receive allowTrailers versions r.flatten).1 ∧
      (receive allowTrailers versions r).2.1 = (receive allowTrailers versions r.flatten).2.1 ∧
        (receive allowTrailers versions r).2.2.NeverFails ∧
          (receive allowTrailers versions r).2.2.flatten =
            (receive allowTrailers versions r.flatten).2.2 := by
  obtain ⟨g, hm, hg⟩ := hr
  have hag := (lockstep_flatten g).receive allowTrailers versions (flattensTo hg)
  obtain ⟨heq, hv, hg', hf⟩ := hag.eq_of_not_lost fun e _ he => hm he.1
  exact ⟨heq, hv, ⟨g, hm, hg'⟩, hf⟩

/-- What the flat reader receives a drained reader receives in a regime that admits no stop. -/
theorem exists_receive_eq_under {υ : Type} [VersionResolver υ] {allowTrailers : Bool}
    {versions versions' : υ} {g : Regime σ} {r : BufferedReader σ} {f' : FlatReader}
    {answer : Except (Stop ReceiveError) Received} (hm : ¬ g.mayStop) (hg : r.Under g)
    (hd : r.Drained)
    (h : receive allowTrailers versions r.flatten = (answer, versions', f')) :
    ∃ r', receive allowTrailers versions r = (answer, versions', r') ∧ r'.Under g ∧ r'.Drained ∧
      r'.flatten = f' := by
  have hag := ((lockstep_flatten g).and preserved_drained).receive allowTrailers versions
    ⟨flattensTo hg, hd⟩
  rw [h] at hag
  obtain ⟨hanswer, hv, ⟨hg', hf⟩, hd'⟩ := hag.eq_of_not_lost fun e _ he => hm he.1
  exact ⟨_, Prod.ext hanswer (Prod.ext hv rfl), hg', hd', hf⟩

/-- What the flat reader receives a reader receives whose source never fails. -/
theorem exists_receive_eq {υ : Type} [VersionResolver υ] {allowTrailers : Bool}
    {versions versions' : υ} {r : BufferedReader σ} {f' : FlatReader}
    {answer : Except (Stop ReceiveError) Received} (hr : r.NeverFails)
    (h : receive allowTrailers versions r.flatten = (answer, versions', f')) :
    ∃ r', receive allowTrailers versions r = (answer, versions', r') ∧ r'.NeverFails ∧
      r'.flatten = f' := by
  obtain ⟨hanswer, hv, hr', hf⟩ := receive_eq_of_neverFails allowTrailers versions hr
  rw [h] at hanswer hv hf
  exact ⟨_, Prod.ext hanswer (Prod.ext hv rfl), hr', hf⟩

end BufferedReader

end HttpWire
