import HttpWire.Reading.Source

/-!
# Readers of lines and blocks

A reader hands out lines and blocks of octets and says after each operation how many raw octets
it took (`lastTaken`).  The code that understands messages is written over this contract, so it
runs over a connection, over a string of octets in memory and over the payload of a chunked body
alike.  What remains to be read never grows, and a line that is returned makes it smaller; loops
over lines end for that reason.
-/

namespace HttpWire

/-- A reader of lines and blocks. -/
class ByteReader (ρ : Type) where
  /-- The next line without its end; `none` when nothing is left. -/
  readLine : ρ → Except (Stop ReceiveError) (Option Text) × ρ
  /-- The next octets, exactly so many. -/
  readExact : Nat → ρ → Except (Stop ReceiveError) Bytes × ρ
  /-- All octets that are left. -/
  readToEnd : ρ → Except (Stop ReceiveError) Bytes × ρ
  /-- The number of raw octets that the last operation took. -/
  lastTaken : ρ → Nat
  /-- The number of raw octets that operations can still take. -/
  remaining : ρ → Nat
  remaining_readLine_le : ∀ r, remaining (readLine r).2 ≤ remaining r
  remaining_readLine_lt : ∀ {r line r'}, readLine r = (.ok (some line), r') →
    remaining r' < remaining r
  remaining_readExact_le : ∀ n r, remaining (readExact n r).2 ≤ remaining r
  remaining_readExact : ∀ {n r bs r'}, readExact n r = (.ok bs, r') →
    bs.length + remaining r' ≤ remaining r
  remaining_readToEnd_le : ∀ r, remaining (readToEnd r).2 ≤ remaining r

/-- The octets without a carriage return at their end. -/
def dropReturn (line : Bytes) : Bytes :=
  if line.getLast? = some carriageReturn then line.dropLast else line

/-- The text of a line in a character set. -/
def LineCharset.decode (charset : LineCharset) (line : Bytes) : Except ReceiveError Text :=
  match charset with
  | .utf8 => .ok (Utf8.decodeLossy line)
  | .ascii =>
    match Utf8.decodeAscii? line with
    | some t => .ok t
    | none => .error (.undecodable .ascii)

/-- The text of a line as an answer of a reader. -/
def LineCharset.answer (charset : LineCharset) (line : Bytes) :
    Except (Stop ReceiveError) (Option Text) :=
  match charset.decode line with
  | .ok t => .ok (some t)
  | .error e => .error (.fault e)

end HttpWire
