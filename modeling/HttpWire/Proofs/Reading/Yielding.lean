import HttpWire.Proofs.Message.Framing
import HttpWire.Proofs.Reading.Stopping
import HttpWire.Proofs.Reading.UpTo

/-!
# Sources that yield some of their octets

A source may be about to stop, but yield all of its octets before that except the last few of them
(`Yields`).  A reader of such a source receives a message in front of those as if there were no
stop, because it does not ask for more than the message (`receive_ahead`): over a flat reader with
one octet behind the message, that octet is left.

If a source never gets so far, then a message that it does not yield to the end is not received, and
the reader stops with its source (`receive_stopped`).
-/

namespace HttpWire

open FaithfulResolver (Faithful)

variable {σ : Type} [ByteSource σ] [StreamSource σ]

/-- From a state in `P`, a read returns something as long as more than the last `k` octets are to
come. -/
def Yields (P : σ → Prop) (k : Nat) : Prop :=
  ∀ {n s}, P s → 0 < n → k < (StreamSource.upcoming s).length →
    ∃ b bs s', ByteSource.read n s = (.ok (b :: bs), s') ∧ P s'

/-- From a state in `P`, more than the last `k` octets are to come, and a read returns something or
is stopped. -/
structure StopsBefore (P : σ → Prop) (stopped : Stop IoError → σ → Prop) (k : Nat) : Prop where
  upcoming : ∀ {s}, P s → k < (StreamSource.upcoming s).length
  read : ∀ {n s}, P s → 0 < n →
    (∃ b bs s', ByteSource.read n s = (.ok (b :: bs), s') ∧ P s') ∨
      ∃ e s', ByteSource.read n s = (.error e, s') ∧ stopped e s'

/-- The regime of a source that stops before its end. -/
def StopsBefore.regime {P : σ → Prop} {stopped : Stop IoError → σ → Prop} {k : Nat}
    (hP : StopsBefore P stopped k) : Regime σ where
  isOpen := P
  isSpent _ := False
  mayStop := True
  read hs hn := (hP.read hs hn).imp_right fun ⟨e, s', hread, _⟩ => .inr ⟨trivial, e, s', hread⟩

/-- A read of such a source leaves it in `P`, or is stopped. -/
theorem StopsBefore.readLeads {P : σ → Prop} {stopped : Stop IoError → σ → Prop} {k n : Nat} {s : σ}
    (hP : StopsBefore P stopped k) (hn : 0 < n) (hs : P s) :
    ReadLeads P stopped (ByteSource.read n s) := by
  rcases hP.read hs hn with ⟨b, bs, s', hread, hs'⟩ | ⟨e, s', hread, hs'⟩
  · rw [hread]
    exact hs'
  · rw [hread]
    exact hs'

namespace BufferedReader

variable {P : σ → Prop} {rest ahead : Bytes} {r : BufferedReader σ} {x : UInt8} {f : FlatReader}

/-! ### Octets that are yielded -/

/-- The octets `ahead` are pending in front of `rest`, and the source has not met its end. -/
structure Ahead (P : σ → Prop) (rest ahead : Bytes) (r : BufferedReader σ) : Prop where
  atEnd : r.atEnd = false
  source : P r.source
  pending : r.pending = ahead ++ rest

namespace Ahead

theorem buffer_append (h : Ahead P rest ahead r) :
    r.buffer ++ StreamSource.upcoming r.source = ahead ++ rest := by
  rw [← h.pending, BufferedReader.pending, h.atEnd]
  rfl

/-- Taking octets off the front of the buffer. -/
theorem taken {buffer before after : Bytes} (h : Ahead P rest (before ++ after) r)
    (hbuffer : r.buffer = before ++ buffer) (count : Nat) :
    Ahead P rest after { r with buffer, lastTaken := count } where
  atEnd := h.atEnd
  source := h.source
  pending := by
    have happend := h.buffer_append
    rw [hbuffer, List.append_assoc, List.append_assoc] at happend
    rw [← List.append_cancel_left happend]
    show buffer ++ (if r.atEnd then [] else StreamSource.upcoming r.source) = _
    rw [h.atEnd]
    rfl

/-- The buffer begins with the octets ahead, as far as it goes. -/
theorem exists_buffer {before after : Bytes} (h : Ahead P rest (before ++ after) r)
    (hle : before.length ≤ r.buffer.length) : ∃ buffer, r.buffer = before ++ buffer := by
  have happend := h.buffer_append
  rw [List.append_assoc] at happend
  obtain ⟨buffer, hbuffer⟩ : before <+: r.buffer :=
    List.prefix_of_prefix_length_le ⟨_, happend.symm⟩ (List.prefix_append ..) hle
  exact ⟨buffer, hbuffer.symm⟩

/-- Without a line feed in it, the buffer does not hold all of a line ahead. -/
theorem length_lt_of_cut {cut : Bytes × UInt8 × Bytes} (h : Ahead P rest ahead r)
    (hcut : splitFirst (· == lineFeed) ahead = some cut)
    (hs : splitFirst (· == lineFeed) r.buffer = none) : r.buffer.length < ahead.length := by
  refine Nat.lt_of_not_le fun hle => ?_
  rw [← List.append_nil ahead] at h
  obtain ⟨buffer, hbuffer⟩ := h.exists_buffer hle
  rw [hbuffer, splitFirst_append_of_some hcut] at hs
  cases hs

/-- While octets ahead are missing in the buffer, filling it succeeds. -/
theorem fill (hP : Yields P rest.length) (h : Ahead P rest ahead r)
    (hlt : r.buffer.length < ahead.length) :
    ∃ ahead' r', r.fill = (.ok true, r') ∧ ahead = r.buffer ++ ahead' ∧ Ahead P rest ahead' r' ∧
      r'.charset = r.charset ∧ r'.lastTaken = r.lastTaken := by
  have happend := h.buffer_append
  have hlength := congrArg List.length happend
  rw [List.length_append, List.length_append] at hlength
  obtain ⟨ahead', rfl⟩ : r.buffer <+: ahead :=
    List.prefix_of_prefix_length_le ⟨_, happend⟩ (List.prefix_append ..) (Nat.le_of_lt hlt)
  rw [List.append_assoc] at happend
  have hupcoming := List.append_cancel_left happend
  obtain ⟨b, bs, s', hread, hs'⟩ := hP (n := r.capacity) h.source r.capacity_pos (by omega)
  have hfill : r.fill = (.ok true, { r with source := s', buffer := b :: bs }) := by
    unfold BufferedReader.fill
    rw [if_neg (ne_true_of_eq_false h.atEnd), hread]
  refine ⟨ahead', _, hfill, rfl, ⟨h.atEnd, hs', ?_⟩, rfl, rfl⟩
  show b :: bs ++ (if r.atEnd then [] else StreamSource.upcoming s') = ahead' ++ rest
  rw [h.atEnd, ← hupcoming, StreamSource.upcoming_of_read hread]
  rfl

/-- While octets ahead are missing in the buffer, it can be handed out and filled again. -/
theorem advance (hP : Yields P rest.length) (h : Ahead P rest ahead r)
    (hlt : r.buffer.length < ahead.length) :
    ∃ ahead' r', r.advance = (.ok true, r') ∧ ahead = r.buffer ++ ahead' ∧ Ahead P rest ahead' r' ∧
      r'.charset = r.charset ∧ r'.lastTaken = r.lastTaken + r.buffer.length :=
  fill (r := { r with lastTaken := r.lastTaken + r.buffer.length }) hP
    ⟨h.atEnd, h.source, h.pending⟩ hlt

/-- A line ahead is taken. -/
theorem takeLine (hP : Yields P rest.length) (line : Bytes) {before after : Bytes} {sep : UInt8}
    (hcut : splitFirst (· == lineFeed) ahead = some (before, sep, after))
    (h : Ahead P rest ahead r) :
    ∃ r', BufferedReader.takeLine line r =
        (r.charset.answer (dropReturn (line ++ before)), r') ∧ Ahead P rest after r' ∧
      r'.charset = r.charset ∧ r'.lastTaken = r.lastTaken + before.length + 1 := by
  fun_induction BufferedReader.takeLine line r generalizing ahead before with
  | case1 line r b sep' a hs =>
    have hboth := splitFirst_append_of_some hs (StreamSource.upcoming r.source)
    rw [h.buffer_append, splitFirst_append_of_some hcut, Option.some.injEq, Prod.mk.injEq] at hboth
    obtain ⟨rfl, hboth⟩ := hboth
    obtain ⟨rfl, -⟩ := Prod.mk.injEq .. ▸ hboth
    have hbuffer := splitFirst_eq_some hs
    have hahead := splitFirst_eq_some hcut
    rw [List.append_cons] at hbuffer hahead
    rw [hahead] at h
    exact ⟨_, rfl, h.taken hbuffer _, rfl, rfl⟩
  | case2 line r hs e r' ha =>
    obtain ⟨_, _, hadvance, -⟩ := h.advance hP (h.length_lt_of_cut hcut hs)
    rw [hadvance] at ha
    cases ha
  | case3 line r hs r' ha | case4 line r hs r' ha =>
    obtain ⟨_, _, hadvance, -⟩ := h.advance hP (h.length_lt_of_cut hcut hs)
    rw [hadvance] at ha
    cases ha
  | case5 line r hs r' ha ih =>
    obtain ⟨ahead', r₁, hadvance, rfl, h₁, hcharset, htaken⟩ :=
      h.advance hP (h.length_lt_of_cut hcut hs)
    rw [hadvance] at ha
    cases ha
    rw [splitFirst_append_of_none hs, Option.map_eq_some_iff] at hcut
    obtain ⟨⟨before', sep', after'⟩, hcut', heq⟩ := hcut
    cases heq
    obtain ⟨r₂, htake, h₂, hcharset₂, htaken₂⟩ := ih hcut' h₁
    refine ⟨r₂, ?_, h₂, hcharset₂.trans hcharset, ?_⟩
    · rw [htake, hcharset, List.append_assoc]
    · rw [htaken₂, htaken, List.length_append]
      omega

/-- A block ahead is taken. -/
theorem takeExact (hP : Yields P rest.length) (missing : Nat) (got : Bytes)
    {before after : Bytes} (hmissing : before.length = missing)
    (h : Ahead P rest (before ++ after) r) :
    ∃ r', BufferedReader.takeExact missing got r = (.ok (got ++ before), r') ∧
      Ahead P rest after r' ∧ r'.charset = r.charset ∧
      r'.lastTaken = got.length + missing := by
  -- A buffer that is too short does not hold all of the octets ahead.
  have hshort {before : Bytes} {missing : Nat} {r : BufferedReader σ}
      (hmissing : before.length = missing) (hlt : ¬ missing ≤ r.buffer.length) :
      r.buffer.length < (before ++ after).length := by
    rw [List.length_append]
    omega
  fun_induction BufferedReader.takeExact missing got r generalizing before with
  | case1 missing got r hle =>
    obtain ⟨buffer, hbuffer⟩ := h.exists_buffer (hmissing ▸ hle)
    rw [hbuffer, List.take_left' hmissing, List.drop_left' hmissing]
    exact ⟨_, rfl, h.taken hbuffer _, rfl, rfl⟩
  | case2 missing got r hlt e r' hf | case3 missing got r hlt r' hf =>
    obtain ⟨_, _, hfill, -⟩ := h.fill hP (hshort hmissing hlt)
    rw [hfill] at hf
    cases hf
  | case4 missing got r hlt r' hf ih =>
    obtain ⟨ahead', r₁, hfill, hahead, h₁, hcharset, -⟩ := h.fill hP (hshort hmissing hlt)
    rw [hfill] at hf
    cases hf
    obtain ⟨before', rfl⟩ : r.buffer <+: before :=
      List.prefix_of_prefix_length_le ⟨ahead', hahead.symm⟩ (List.prefix_append ..) (by omega)
    rw [List.append_assoc] at hahead
    obtain rfl := List.append_cancel_left hahead
    rw [List.length_append] at hmissing
    have hlength : before'.length = missing - r.buffer.length := by omega
    obtain ⟨r₂, htake, h₂, hcharset₂, htaken₂⟩ := ih hlength h₁
    refine ⟨r₂, ?_, h₂, hcharset₂.trans hcharset, ?_⟩
    · rw [htake, List.append_assoc]
    · rw [htaken₂, List.length_append]
      omega

end Ahead

/-! ### Beside a flat reader -/

/-- The octets ahead are those of the flat reader in front of the octet `x`. -/
def AheadOf (P : σ → Prop) (rest : Bytes) (x : UInt8) (r : BufferedReader σ) (f : FlatReader) :
    Prop :=
  ∃ ahead, Ahead P rest ahead r ∧
    f = { rest := ahead ++ [x], charset := r.charset, lastTaken := r.lastTaken }

/-- Unless the flat reader takes the octet behind those ahead, they are taken alike. -/
theorem follows_ahead (hP : Yields P rest.length) (x : UInt8) :
    Follows (fun f : FlatReader => f.rest = []) (AheadOf P rest x) where
  readLine := by
    rintro r f ⟨ahead, h, rfl⟩ hpast
    change ¬ (FlatReader.readLine _).2.rest = [] at hpast
    show Beside _ r.readLine (FlatReader.readLine _)
    unfold FlatReader.readLine at hpast ⊢
    dsimp only at hpast ⊢
    cases hcut : splitFirst (· == lineFeed) (ahead ++ [x]) with
    | none =>
      rw [hcut] at hpast
      exact absurd rfl hpast
    | some cut =>
      obtain ⟨before, sep, after⟩ := cut
      rw [hcut] at hpast
      -- The octet that is left is the one behind those ahead.
      obtain ⟨happend, hsep, hbefore⟩ := splitFirst_eq_some_iff.mp hcut
      obtain ⟨after, y, rfl⟩ : ∃ l y, after = l ++ [y] :=
        ⟨_, _, (List.dropLast_concat_getLast hpast).symm⟩
      rw [← List.cons_append, ← List.append_assoc] at happend
      obtain ⟨rfl, hx⟩ := List.append_inj' happend rfl
      obtain ⟨r', htake, h', hcharset, htaken⟩ :=
        Ahead.takeLine (r := { r with lastTaken := 0 }) hP []
          (splitFirst_append_cons hbefore hsep) ⟨h.atEnd, h.source, h.pending⟩
      rw [show r.readLine = _ from htake]
      refine ⟨rfl, after, h', ?_⟩
      rw [hcharset, htaken, hx, Nat.zero_add]
  readExact := by
    rintro n r f ⟨ahead, h, rfl⟩ hpast
    change ¬ (ahead ++ [x]).drop n = [] at hpast
    rw [List.drop_eq_nil_iff, List.length_append, List.length_singleton] at hpast
    obtain ⟨before, after, hbefore, rfl⟩ : ∃ before after, before.length = n ∧
        ahead = before ++ after :=
      ⟨ahead.take n, ahead.drop n, List.length_take_of_le (by omega),
        (List.take_append_drop ..).symm⟩
    obtain ⟨r', htake, h', hcharset, htaken⟩ :=
      Ahead.takeExact (r := { r with lastTaken := 0 }) hP n [] hbefore
        ⟨h.atEnd, h.source, h.pending⟩
    show Beside _ (r.readExact n) (FlatReader.readExact n _)
    rw [show r.readExact n = _ from htake]
    have hle : n ≤ (before ++ (after ++ [x])).length := by
      rw [List.length_append, hbefore]
      exact Nat.le_add_right ..
    unfold FlatReader.readExact
    dsimp only
    rw [List.append_assoc, if_pos hle, Nat.min_eq_left hle, List.take_left' hbefore,
      List.drop_left' hbefore]
    refine ⟨rfl, after, h', ?_⟩
    rw [hcharset, htaken, List.length_nil, Nat.zero_add]
  lastTaken := by
    rintro r f ⟨ahead, h, rfl⟩
    rfl
  stays := by
    constructor
    · intro f hf
      show f.readLine.2.rest = []
      rw [FlatReader.readLine, hf]
      rfl
    · intro n f hf
      show f.rest.drop n = []
      rw [hf, List.drop_nil]

/-- **A message in front of octets that need not be yielded is received**, and they are left. -/
theorem receive_ahead {υ : Type} [VersionResolver υ] [FaithfulResolver υ] {versions : υ}
    (m : Message) (allowTrailers : Bool) (hv : Faithful versions) (hP : Yields P rest.length)
    (h : Ahead P rest m.octets r) :
    ∃ versions' r', receive allowTrailers versions r =
        (.ok (.request (m.request allowTrailers)), versions', r') ∧
      Faithful versions' ∧ Ahead P rest [] r' := by
  -- Any octet behind the message will do.
  obtain ⟨f', hflat, hleaves⟩ := m.receive_eq allowTrailers hv
    (f := { rest := m.octets ++ [lineFeed], charset := r.charset, lastTaken := r.lastTaken }) rfl
  have hbeside := (follows_ahead hP lineFeed).receive allowTrailers versions ⟨m.octets, h, rfl⟩
  rw [hflat] at hbeside
  obtain ⟨hanswer, hversions, ahead, h', hf'⟩ := hbeside (by
    rw [hleaves.1]
    exact List.cons_ne_nil _ _)
  have hnone := (congrArg FlatReader.rest hf').symm.trans hleaves.1
  obtain rfl : ahead = [] := List.append_left_eq_self.mp hnone
  exact ⟨_, _, Prod.ext hanswer (Prod.ext hversions rfl), FaithfulResolver.faithful_resolve _ hv,
    h'⟩

/-! ### Octets that are not yielded -/

/-- **What a source stops before is not received**: the reader is stopped with its source. -/
theorem receive_stopped {υ : Type} [VersionResolver υ] {stopped : Stop IoError → σ → Prop}
    {allowTrailers : Bool} {versions versions' : υ} {k : Nat}
    {answer : Except (Stop ReceiveError) Received}
    (hP : StopsBefore P stopped k) (hend : r.atEnd = false) (hsource : P r.source)
    (hflat : receive allowTrailers versions r.flatten = (answer, versions', f))
    (hrest : f.rest.length ≤ k) :
    ∃ e versions'' r', receive allowTrailers versions r = (.error (e.map .io), versions'', r') ∧
      stopped e r'.source := by
  have hunder : r.Under hP.regime := by
    unfold Under
    rw [hend]
    exact hsource
  have hag := (lockstep_flatten hP.regime).receive allowTrailers versions (flattensTo hunder)
  have hstop := (stoppable fun _ _ => hP.readLeads).receive allowTrailers versions hsource
  rw [hflat] at hag
  -- The end is not met, because there is always more to come than the flat reader has left.
  have hnot (r' : BufferedReader σ) : ¬ FlattensTo hP.regime r' f := by
    rintro ⟨hg, rfl⟩
    unfold Under at hg
    split at hg
    · exact hg
    · next hmore =>
      have hupcoming := hP.upcoming hg
      change r'.pending.length ≤ k at hrest
      rw [pending, if_neg hmore, List.length_append] at hrest
      omega
  generalize receive allowTrailers versions r = y at hag hstop ⊢
  cases hag with
  | same h => exact absurd h.2 (hnot _)
  | @lost e a _ he =>
    cases hstop with
    | @refused e _ hio =>
      cases e with
      | io e => exact absurd rfl (hio e)
      | _ => exact he.2.elim
    | stopped hs' => exact ⟨_, _, _, rfl, hs'⟩

end BufferedReader

end HttpWire
