import HttpWire.Proofs.Field.Block
import HttpWire.Proofs.Reading.CutLines

/-!
# Header blocks in UTF-8

Octets are the header block of some headers if a reader in UTF-8 takes them as such, whatever
follows them (`HeadOf`).  A block of fields is one, and what is read as a block is one
(`headOf_of_readBlock`).
-/

namespace HttpWire

section

variable {headers : Headers} {head rest : Bytes} {f f' : FlatReader}

/-- Octets are a header block that is read as such headers, whatever follows it. -/
def HeadOf (headers : Headers) (head : Bytes) : Prop :=
  ∀ y i, ∃ last, Headers.readBlock 0 {} (FlatReader.utf8 (head ++ y) i) =
    (.ok head.length, headers, FlatReader.utf8 y last)

theorem headOf_of_blockOf {fields : List Field} (h : BlockOf .utf8 fields head) :
    HeadOf ⟨fields⟩ head := by
  intro y i
  obtain ⟨last, hread⟩ := readBlock_of_blockOf (f := FlatReader.utf8 (head ++ y) i) h rfl 0 {}
  refine ⟨last, hread.trans ?_⟩
  rw [Nat.zero_add]
  rfl

/-- A line takes what it says it takes. -/
theorem FlatReader.lastTaken_readLine {answer : Except (Stop ReceiveError) (Option Text)}
    (h : ByteReader.readLine f = (answer, f')) :
    f'.lastTaken + f'.rest.length = f.rest.length := by
  rw [show ByteReader.readLine f = f.readLine from rfl, readLine] at h
  cases hs : splitFirst (· == lineFeed) f.rest with
  | none =>
    rw [hs] at h
    cases h
    rfl
  | some parts =>
    obtain ⟨before, sep, after⟩ := parts
    rw [hs] at h
    cases h
    rw [splitFirst_eq_some hs, List.length_append, List.length_cons]
    show before.length + 1 + after.length = _
    omega

/-- A block takes what it says it takes, and no reader changes its character set. -/
theorem account_of_readBlock {taken n : Nat} {h h' : Headers}
    (hr : Headers.readBlock taken h f = (.ok n, h', f')) :
    n + f'.rest.length = taken + f.rest.length ∧ f'.charset = f.charset := by
  fun_induction Headers.readBlock taken h f with
  | case1 => cases hr
  | case2 => cases hr
  | case3 taken h f f₁ hl =>
    have hcount := FlatReader.lastTaken_readLine hl
    have hcharset := FlatReader.charset_readLine f
    rw [hl] at hcharset
    cases hr
    refine ⟨?_, hcharset⟩
    rw [show ByteReader.lastTaken f' = f'.lastTaken from rfl]
    omega
  | case4 => cases hr
  | case5 taken h f line f₁ hne hl field hfield ih =>
    have hcount := FlatReader.lastTaken_readLine hl
    have hcharset := FlatReader.charset_readLine f
    rw [hl] at hcharset
    obtain ⟨hrest, hcharset'⟩ := ih hr
    refine ⟨?_, hcharset'.trans hcharset⟩
    rw [show ByteReader.lastTaken f₁ = f₁.lastTaken from rfl] at hrest
    omega

/-- How many octets the line before took is of no account. -/
theorem readBlock_lastTaken (i j : Nat) :
    Headers.readBlock 0 {} (FlatReader.utf8 rest i) =
      Headers.readBlock 0 {} (FlatReader.utf8 rest j) := by
  rw [Headers.readBlock_eq, Headers.readBlock_eq 0 {} (FlatReader.utf8 rest j)]
  rfl

/-- What is read as a header block is one. -/
theorem headOf_of_readBlock {i n : Nat}
    (hr : Headers.readBlock 0 {} (FlatReader.utf8 rest i) = (.ok n, headers, f')) :
    ∃ head, rest = head ++ f'.rest ∧ n = head.length ∧ f' = .utf8 f'.rest f'.lastTaken ∧
      HeadOf headers head := by
  obtain ⟨hcount, hcharset⟩ := account_of_readBlock hr
  obtain ⟨head, hrest, hsettled⟩ := Headers.settles_readBlock hr
  obtain rfl : rest = head ++ f'.rest := hrest
  have hn : n = head.length := by
    rw [show (FlatReader.utf8 (head ++ f'.rest) i).rest = head ++ f'.rest from rfl,
      List.length_append] at hcount
    omega
  have hread (y : Bytes) : OnOctets.withRest y f' = .utf8 y f'.lastTaken := by
    rw [FlatReader.utf8, show LineCharset.utf8 = f'.charset from hcharset.symm]
    rfl
  refine ⟨head, rfl, hn, hread f'.rest, ?_⟩
  intro y j
  refine ⟨f'.lastTaken, ?_⟩
  rw [readBlock_lastTaken j i, ← hn, ← hread y]
  exact hsettled y

end

end HttpWire
