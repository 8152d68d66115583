import HttpWire.Text.Blank
import HttpWire.Headers
import HttpWire.Reading.Reader

/-!
# Header lines and blocks

A header line is a name, a colon and a value with white space around it.  The name is judged
before the value.

A header block is header lines up to the first empty line.  The fields read before a fault stay:
reading a block extends the headers by every line that was good.
-/

namespace HttpWire

/-- Reads a header line. -/
def Field.ofLine (line : Text) : Except HeaderFault Field :=
  match splitFirst (· == ':') line with
  | none => .error (.missingColon line)
  | some (before, _, after) =>
    match FieldName.ofText? before with
    | none => .error (.badName before)
    | some name =>
      match FieldValue.ofText? (Text.trim after) with
      | none => .error (.badValue name)
      | some value => .ok { name, value }

namespace Headers

variable {ρ : Type} [ByteReader ρ]

/-- Reads the rest of a header block of which `taken` octets have been read.  The answer is the
length of the whole block in octets. -/
def readBlock (taken : Nat) (h : Headers) (r : ρ) :
    Except (Stop ReceiveError) Nat × Headers × ρ :=
  match _h : ByteReader.readLine r with
  | (.error e, r') => (.error e, h, r')
  | (.ok none, r') =>
    -- What is missing is at least an empty line, which has two octets.
    let taken := taken + ByteReader.lastTaken r'
    (.error (.fault (.truncated (taken + 2) taken)), h, r')
  | (.ok (some []), r') => (.ok (taken + ByteReader.lastTaken r'), h, r')
  | (.ok (some line), r') =>
    match Field.ofLine line with
    | .error e => (.error (.fault (.header e)), h, r')
    | .ok f => readBlock (taken + ByteReader.lastTaken r') (h.append f) r'
termination_by ByteReader.remaining r
decreasing_by exact ByteReader.remaining_readLine_lt _h

/-- Reading a block leaves no more than there was. -/
theorem remaining_readBlock_le (taken : Nat) (h : Headers) (r : ρ) :
    ByteReader.remaining (readBlock taken h r).2.2 ≤ ByteReader.remaining r := by
  have step (r : ρ) {a r'} (hl : ByteReader.readLine r = (a, r')) :
      ByteReader.remaining r' ≤ ByteReader.remaining r := by
    simpa [hl] using ByteReader.remaining_readLine_le r
  fun_induction readBlock taken h r with
  | case1 _ _ r _ _ hl => exact step r hl
  | case2 _ _ r _ hl => exact step r hl
  | case3 _ _ r _ hl => exact step r hl
  | case4 _ _ r _ _ _ hl => exact step r hl
  | case5 _ _ r _ _ _ hl _ _ ih => exact Nat.le_trans ih (step r hl)

end Headers

end HttpWire
