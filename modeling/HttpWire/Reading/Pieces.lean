import HttpWire.Reading.Source

/-!
# Octets in memory as a source

Octets in memory are read piece by piece.  One piece is the octets as they are; several are the
octets as a transport may have delivered them.
-/

namespace HttpWire

/-- A source that delivers pieces.  A read takes no more of a piece than it asks for, and a piece
without octets is the end for whoever reads it. -/
structure Pieces where
  pieces : List Bytes

namespace Pieces

/-- Reads from the first piece. -/
def read (limit : Nat) (s : Pieces) : Except (Stop IoError) Bytes × Pieces :=
  match s.pieces with
  | [] => (.ok [], s)
  | piece :: rest =>
    (.ok (piece.take limit), ⟨if piece.length ≤ limit then rest else piece.drop limit :: rest⟩)

/-- The octets of all pieces. -/
def available (s : Pieces) : Nat :=
  s.pieces.flatten.length

theorem available_of_read {n : Nat} {s s' : Pieces} {bs : Bytes} (h : read n s = (.ok bs, s')) :
    bs.length + s'.available = s.available := by
  obtain ⟨pieces⟩ := s
  cases pieces with
  | nil =>
    cases h
    rfl
  | cons piece rest =>
    cases h
    simp only [available, List.flatten_cons, List.length_append, List.length_take]
    by_cases hle : piece.length ≤ n
    · rw [if_pos hle]
      omega
    · rw [if_neg hle, List.flatten_cons, List.length_append, List.length_drop]
      omega

theorem ne_error_read {n : Nat} {s s' : Pieces} {e : Stop IoError} : read n s ≠ (.error e, s') := by
  unfold read
  split <;> simp

instance : ByteSource Pieces where
  read := read
  available := available
  length_read_le {n s bs s'} h := by
    obtain ⟨pieces⟩ := s
    cases pieces with
    | nil =>
      cases h
      exact Nat.zero_le n
    | cons piece rest =>
      cases h
      exact List.length_take_le n piece
  available_read := available_of_read
  available_stopped h := absurd h ne_error_read

end Pieces

end HttpWire
