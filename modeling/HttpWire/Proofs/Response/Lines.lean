import HttpWire.Response.Reply

/-!
# Heads made of lines

A head is a row of lines, each with its end, and an empty line.  If no line is empty and none has a
carriage return in it, then the head can be told from whatever follows it: it is cut into those
lines and no others (`pieces_row`), and the first empty line in it is the one that ends it
(`length_row_le`).
-/

namespace HttpWire.Reply

/-! ### Cutting -/

/-- Puts an octet in front of the first piece. -/
def pushFront (b : UInt8) : List Bytes → List Bytes
  | [] => [[b]]
  | piece :: pieces => (b :: piece) :: pieces

/-- The pieces of octets before, between and behind the ends of lines in them. -/
def pieces : Bytes → List Bytes
  | [] => [[]]
  | [b] => [[b]]
  | b :: c :: bs =>
    if b = carriageReturn ∧ c = lineFeed then [] :: pieces bs else pushFront b (pieces (c :: bs))

/-- An empty line behind the end of another. -/
def emptyLine : Bytes := lineEnd ++ lineEnd

/-- The lines with their ends. -/
def row (lines : List Bytes) : Bytes :=
  lines.flatMap (· ++ lineEnd)

/-- Octets that can be a line of a head. -/
structure IsLine (line : Bytes) : Prop where
  ne_nil : line ≠ []
  no_return : carriageReturn ∉ line
  no_feed : lineFeed ∉ line

variable {b : UInt8} {line rest : Bytes} {lines : List Bytes}

theorem pieces_cons (hb : b ≠ carriageReturn) (bs : Bytes) :
    pieces (b :: bs) = pushFront b (pieces bs) := by
  cases bs with
  | nil => rfl
  | cons c bs => rw [pieces, if_neg fun h => hb h.1]

/-- Octets without an end of a line are one piece. -/
theorem pieces_line (h : carriageReturn ∉ line) : pieces line = [line] := by
  induction line with
  | nil => rfl
  | cons b line ih =>
    obtain ⟨hb, hline⟩ := not_or.mp (mt List.mem_cons.mpr h)
    rw [pieces_cons (Ne.symm hb), ih hline]
    rfl

/-- A line in front of its end is the first piece. -/
theorem pieces_ended (h : carriageReturn ∉ line) (rest : Bytes) :
    pieces (line ++ (lineEnd ++ rest)) = line :: pieces rest := by
  induction line with
  | nil =>
    show pieces (carriageReturn :: lineFeed :: rest) = _
    rw [pieces, if_pos ⟨rfl, rfl⟩]
  | cons b line ih =>
    obtain ⟨hb, hline⟩ := not_or.mp (mt List.mem_cons.mpr h)
    rw [List.cons_append, pieces_cons (Ne.symm hb), ih hline]
    rfl

theorem row_cons (line : Bytes) (lines : List Bytes) (rest : Bytes) :
    row (line :: lines) ++ rest = line ++ (lineEnd ++ (row lines ++ rest)) := by
  rw [row, List.flatMap_cons, ← row]
  simp only [List.append_assoc]

/-- **A row of lines is cut into those lines**, and what follows it into its own pieces. -/
theorem pieces_row (h : ∀ line ∈ lines, IsLine line) (rest : Bytes) :
    pieces (row lines ++ rest) = lines ++ pieces rest := by
  induction lines with
  | nil => rfl
  | cons line lines ih =>
    obtain ⟨hline, hlines⟩ := List.forall_mem_cons.mp h
    rw [row_cons, pieces_ended hline.no_return, ih hlines]
    rfl

/-- The last end of a row is behind its last line, so the octets in front of it are cut into the
same lines. -/
theorem exists_row_eq (h : ∀ line ∈ lines, IsLine line) (hne : lines ≠ []) :
    ∃ front, row lines = front ++ lineEnd ∧ pieces front = lines := by
  obtain ⟨before, last, rfl⟩ : ∃ before last, lines = before ++ [last] :=
    ⟨_, _, (List.dropLast_concat_getLast hne).symm⟩
  refine ⟨row before ++ last, ?_, ?_⟩
  · rw [row, List.flatMap_append, List.flatMap_singleton, ← row, List.append_assoc]
  · have hlast := h last (List.mem_append_right _ (List.mem_singleton_self last))
    rw [pieces_row fun line hline => h line (List.mem_append_left _ hline),
      pieces_line hlast.no_return]

/-! ### The first empty line -/

/-- A carriage return begins the end of the line or stands behind it. -/
theorem getElem?_eq_return {i : Nat} (h : carriageReturn ∉ line)
    (hi : (line ++ (lineEnd ++ rest))[i]? = some carriageReturn) :
    i = line.length ∨ ∃ k, i = line.length + 2 + k ∧ rest[k]? = some carriageReturn := by
  rcases Nat.lt_trichotomy i line.length with hlt | heq | hgt
  · rw [List.getElem?_append_left hlt] at hi
    exact absurd (List.mem_of_getElem? hi) h
  · exact .inl heq
  · right
    obtain ⟨k, rfl⟩ : ∃ k, i = line.length + (k + 1) := ⟨i - line.length - 1, by omega⟩
    rw [List.getElem?_append_right (by omega), Nat.add_sub_cancel_left] at hi
    cases k with
    -- The second octet of the end is the line feed.
    | zero => exact absurd (Option.some.inj hi) (by decide)
    | succ k => exact ⟨k, by omega, hi⟩

theorem getElem?_of_isPrefix {i : Nat} {octets : Bytes} (h : emptyLine <+: octets.drop i) :
    octets[i]? = some carriageReturn ∧ octets[i + 2]? = some carriageReturn := by
  obtain ⟨behind, h⟩ := h
  have hget (k : Nat) : octets[i + k]? = (emptyLine ++ behind)[k]? := by
    rw [h, List.getElem?_drop]
  exact ⟨hget 0, hget 2⟩

theorem head?_row (h : ∀ line ∈ lines, IsLine line) (hne : lines ≠ []) (rest : Bytes) :
    (row lines ++ rest)[0]? ≠ some carriageReturn := by
  obtain ⟨line, lines, rfl⟩ := List.exists_cons_of_ne_nil hne
  have hline := h line (List.mem_cons_self ..)
  obtain ⟨b, bs, rfl⟩ := List.exists_cons_of_ne_nil hline.ne_nil
  rw [row_cons]
  intro hb
  apply hline.no_return
  rw [← Option.some.inj hb]
  exact List.mem_cons_self ..

/-- **No empty line stands in front of the one behind a row.**  It begins with the end of the last
line, two octets in front of the end of the row. -/
theorem length_row_le (h : ∀ line ∈ lines, IsLine line) {i : Nat}
    (hi : emptyLine <+: (row lines ++ (lineEnd ++ rest)).drop i) : (row lines).length ≤ i + 2 := by
  induction lines generalizing i with
  | nil => exact Nat.zero_le _
  | cons line lines ih =>
    obtain ⟨hline, hlines⟩ := List.forall_mem_cons.mp h
    have hlength : (row (line :: lines)).length = line.length + 2 + (row lines).length := by
      rw [row, List.flatMap_cons, List.length_append, List.length_append]
      rfl
    obtain ⟨hfirst, hthird⟩ := getElem?_of_isPrefix hi
    rw [row_cons] at hi hfirst hthird
    rcases getElem?_eq_return hline.no_return hfirst with rfl | ⟨k, rfl, -⟩
    · -- What begins with the end of this line is an empty line only if no other line follows.
      have hlast : lines = [] := by
        by_cases hlast : lines = []
        · exact hlast
        · rcases getElem?_eq_return hline.no_return hthird with hlt | ⟨k, hk, hnext⟩
          · omega
          · obtain rfl : k = 0 := by omega
            exact absurd hnext (head?_row hlines hlast _)
      rw [hlength, hlast]
      show line.length + 2 + 0 ≤ line.length + 2
      omega
    · have hdrop : (line ++ (lineEnd ++ (row lines ++ (lineEnd ++ rest)))).drop
          (line.length + 2 + k) = (row lines ++ (lineEnd ++ rest)).drop k := by
        have hend : (line ++ lineEnd).length = line.length + 2 := List.length_append
        rw [← List.append_assoc, ← hend, ← List.drop_drop, List.drop_left]
      rw [hdrop] at hi
      have hle := ih hlines hi
      omega

end HttpWire.Reply
