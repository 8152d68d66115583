import HttpWire.Text.Basic

/-!
# Octets at a position

A reader that counts what it takes knows where in its octets it stands.  `StandsAt` says that such a
count is right: behind so many octets stands what is left.
-/

namespace HttpWire

/-- Octets are those of `raw` behind the first `position` ones. -/
def StandsAt (raw : Bytes) (position : Nat) (rest : Bytes) : Prop :=
  ∃ front, raw = front ++ rest ∧ front.length = position

namespace StandsAt

variable {raw a b rest : Bytes} {position : Nat}

theorem start (raw : Bytes) : StandsAt raw 0 raw :=
  ⟨[], rfl, rfl⟩

/-- Octets that are taken are counted. -/
theorem behind (h : StandsAt raw position (a ++ b)) : StandsAt raw (position + a.length) b := by
  obtain ⟨front, rfl, rfl⟩ := h
  exact ⟨front ++ a, (List.append_assoc ..).symm, List.length_append⟩

theorem drop_eq (h : StandsAt raw position rest) : raw.drop position = rest := by
  obtain ⟨front, rfl, rfl⟩ := h
  exact List.drop_left

theorem length_eq (h : StandsAt raw position rest) : position + rest.length = raw.length := by
  obtain ⟨front, rfl, rfl⟩ := h
  exact List.length_append.symm

/-- The octets that stand between two positions. -/
theorem extract_eq (h : StandsAt raw position (a ++ b)) :
    raw.extract position (position + a.length) = a := by
  rw [List.extract_eq_take_drop, h.drop_eq, Nat.add_sub_cancel_left, List.take_left]

theorem getElem?_eq {c : UInt8} (h : StandsAt raw position (a ++ c :: b)) :
    raw[position + a.length]? = some c := by
  obtain ⟨front, rfl, rfl⟩ := h
  simp

end StandsAt

end HttpWire
