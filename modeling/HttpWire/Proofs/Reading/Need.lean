import HttpWire.Proofs.Reading.Operations

/-!
# No reading ahead of need

A buffered reader over a live connection must not ask for octets that it can do without, because
they may never come.  `Course` is how an operation goes on: it looks at the buffer first, hands it
out if it does not settle the operation, and only then, the buffer being empty, fills it again
(`course_perform`).

What this means for the source is said of a source that keeps a list of its reads (`Watched`).  That
list is of no consequence for the reader (`performAll_unwatched`), and `reads_for_need` says which
reads can be on it.
-/

namespace HttpWire

/-- Whether octets settle an operation, so that it needs no others. -/
def Operation.SettledBy (op : Operation) (octets : Bytes) : Prop :=
  match op with
  | .line => lineFeed ∈ octets
  | .exact count => count ≤ octets.length
  -- Only the end of the source shows that there is nothing left.
  | .toEnd => False

namespace BufferedReader

section

variable {σ : Type} [ByteSource σ]

/-- How an operation goes on that has been handed the octets `held`, from one reader to another. -/
inductive Course (op : Operation) : Bytes → BufferedReader σ → BufferedReader σ → Prop
  /-- What is held and buffered settles it.  What is behind stays in the buffer. -/
  | settled {held r after n} (hsettled : op.SettledBy (held ++ r.buffer))
    (hafter : after <:+ r.buffer) : Course op held r { r with buffer := after, lastTaken := n }
  | handsOut {held r r' n} (hneed : ¬ op.SettledBy (held ++ r.buffer))
    (hrest : Course op (held ++ r.buffer) { r with buffer := [], lastTaken := n } r') :
    Course op held r r'
  /-- The empty buffer is filled. -/
  | fills {held r r₁ r'} (hneed : ¬ op.SettledBy held) (hempty : r.buffer = [])
    (hfill : r.fill = (.ok true, r₁)) (hrest : Course op held r₁ r') : Course op held r r'
  /-- The buffer stays empty, because the source is at its end or stops the operation. -/
  | ends {held r r₁ answer n} (hneed : ¬ op.SettledBy held) (hempty : r.buffer = [])
    (hfill : r.fill = (answer, r₁)) (hanswer : answer ≠ .ok true) :
    Course op held r { r₁ with lastTaken := n }

/-! ### Operations -/

theorem course_takeLine {line : Bytes} {r : BufferedReader σ} (hline : lineFeed ∉ line) :
    Course .line line r (takeLine line r).2 := by
  -- What has been handed out never has a line feed, so only the buffer can bring one.
  have hneed {line buffer : Bytes} (hline : lineFeed ∉ line)
      (hs : splitFirst (· == lineFeed) buffer = none) :
      ¬ Operation.line.SettledBy (line ++ buffer) := by
    intro h
    rcases List.mem_append.mp h with h | h
    · exact hline h
    · exact splitFirst_beq_eq_none_iff.mp hs h
  fun_induction takeLine line r with
  | case1 line r before sep after hs =>
    obtain ⟨rfl, hbuffer, -⟩ := splitFirst_beq_eq_some_iff.mp hs
    refine .settled ?_ ⟨before ++ [lineFeed], ?_⟩
    · show lineFeed ∈ line ++ r.buffer
      rw [hbuffer]
      simp
    · rw [hbuffer, List.append_assoc, List.singleton_append]
  | case2 line r hs e r' hf | case3 line r hs r' hf | case4 line r hs r' hf =>
    exact .handsOut (hneed hline hs) (.ends (hneed hline hs) rfl hf (by simp))
  | case5 line r hs r' hf ih =>
    exact .handsOut (hneed hline hs) (.fills (hneed hline hs) rfl hf (ih (hneed hline hs)))

theorem course_takeExact {count missing : Nat} {got : Bytes} {r : BufferedReader σ}
    (hcount : got.length + missing = count) :
    Course (.exact count) got r (takeExact missing got r).2 := by
  have hneed {missing : Nat} {got buffer : Bytes} (hcount : got.length + missing = count)
      (hlt : ¬ missing ≤ buffer.length) :
      ¬ (Operation.exact count).SettledBy (got ++ buffer) := by
    intro h
    have hle : count ≤ (got ++ buffer).length := h
    rw [List.length_append] at hle
    omega
  -- What has been handed out and what is missing make up the block in every round.
  fun_induction takeExact missing got r with
  | case1 missing got r hle =>
    refine .settled ?_ (List.drop_suffix missing r.buffer)
    show count ≤ (got ++ r.buffer).length
    rw [List.length_append]
    omega
  | case2 missing got r hlt e r' hf | case3 missing got r hlt r' hf got' =>
    exact .handsOut (hneed hcount hlt) (.ends (hneed hcount hlt) rfl hf (by simp))
  | case4 missing got r hlt r' hf ih =>
    refine .handsOut (hneed hcount hlt) (.fills (hneed hcount hlt) rfl hf (ih ?_))
    rw [List.length_append]
    omega

theorem course_takeToEnd (got : Bytes) (r : BufferedReader σ) :
    Course .toEnd got r (takeToEnd got r).2 := by
  fun_induction takeToEnd got r with
  | case1 got r e r' hf | case2 got r r' hf => exact .handsOut id (.ends id rfl hf (by simp))
  | case3 got r r' hf ih => exact .handsOut id (.fills id rfl hf ih)

/-- An operation goes on from having been handed nothing. -/
theorem course_perform (op : Operation) (r : BufferedReader σ) :
    Course op [] { r with lastTaken := 0 } (op.perform r).2 := by
  cases op with
  | line => exact course_takeLine List.not_mem_nil
  | exact count => exact course_takeExact (Nat.zero_add count)
  | toEnd => exact course_takeToEnd [] { r with lastTaken := 0 }

/-- What is settled by the buffer leaves the source alone. -/
theorem Course.source_eq {op : Operation} {held : Bytes} {r r' : BufferedReader σ}
    (h : Course op held r r') (hsettled : op.SettledBy (held ++ r.buffer)) :
    r'.source = r.source := by
  cases h with
  | settled => rfl
  | handsOut hneed => exact absurd hsettled hneed
  -- An empty buffer settles nothing that has not been settled before.
  | fills hneed hempty | ends hneed hempty =>
    rw [hempty, List.append_nil] at hsettled
    exact absurd hsettled hneed

end

end BufferedReader

/-! ### A source that is watched -/

/-- A read of a source: the most octets that it asked for, and what it was answered. -/
structure SourceRead where
  limit : Nat
  answer : Except (Stop IoError) Bytes

/-- The octets that a read returned. -/
def SourceRead.octets (read : SourceRead) : Bytes :=
  match read.answer with
  | .ok octets => octets
  | .error _ => []

/-- A source and the reads that it has answered. -/
structure Watched (σ : Type) where
  source : σ
  reads : List SourceRead := []

variable {σ : Type} [ByteSource σ]

/-- Reads the source and keeps the read. -/
def Watched.read (limit : Nat) (w : Watched σ) : Except (Stop IoError) Bytes × Watched σ :=
  let (answer, source) := ByteSource.read limit w.source
  (answer, ⟨source, w.reads ++ [⟨limit, answer⟩]⟩)

instance : ByteSource (Watched σ) where
  read := Watched.read
  available w := ByteSource.available w.source
  length_read_le {n w bs w'} h := by
    rcases hr : ByteSource.read n w.source with ⟨answer, s⟩
    simp only [Watched.read, hr, Prod.mk.injEq] at h
    obtain ⟨rfl, rfl⟩ := h
    exact ByteSource.length_read_le hr
  available_read {n w bs w'} h := by
    rcases hr : ByteSource.read n w.source with ⟨answer, s⟩
    simp only [Watched.read, hr, Prod.mk.injEq] at h
    obtain ⟨rfl, rfl⟩ := h
    exact ByteSource.available_read hr
  available_stopped {n w e w'} h := by
    rcases hr : ByteSource.read n w.source with ⟨answer, s⟩
    simp only [Watched.read, hr, Prod.mk.injEq] at h
    obtain ⟨rfl, rfl⟩ := h
    exact ByteSource.available_stopped hr

namespace BufferedReader

/-- The reader over the source itself. -/
def unwatched (r : BufferedReader (Watched σ)) : BufferedReader σ :=
  { r with source := r.source.source }

omit [ByteSource σ] in
@[simp] theorem buffer_unwatched (r : BufferedReader (Watched σ)) :
    r.unwatched.buffer = r.buffer :=
  rfl

/-- An answer with the reader behind it over the source itself. -/
def unwatchedBehind {α : Type} (x : α × BufferedReader (Watched σ)) : α × BufferedReader σ :=
  (x.1, x.2.unwatched)

theorem fill_unwatched (r : BufferedReader (Watched σ)) :
    r.unwatched.fill = unwatchedBehind r.fill := by
  unfold fill
  by_cases hend : r.atEnd
  · rw [if_pos hend, if_pos (show r.unwatched.atEnd = true from hend)]
    rfl
  · rw [if_neg hend, if_neg (show ¬ r.unwatched.atEnd = true from hend)]
    have hread : ByteSource.read r.capacity r.source = Watched.read r.capacity r.source := rfl
    have hread' : ByteSource.read r.unwatched.capacity r.unwatched.source =
      ByteSource.read r.capacity r.source.source := rfl
    rw [hread, hread', Watched.read]
    rcases ByteSource.read r.capacity r.source.source with ⟨e | _ | ⟨b, bs⟩, s⟩ <;> rfl

theorem advance_unwatched (r : BufferedReader (Watched σ)) :
    r.unwatched.advance = unwatchedBehind r.advance :=
  fill_unwatched { r with lastTaken := r.lastTaken + r.buffer.length }

theorem takeLine_unwatched (line : Bytes) (r : BufferedReader (Watched σ)) :
    takeLine line r.unwatched = unwatchedBehind (takeLine line r) := by
  fun_induction takeLine line r with
  | case1 line r before sep after hs =>
    rw [takeLine_eq, buffer_unwatched, hs]
    rfl
  | case2 line r hs e r' hf =>
    rw [takeLine_eq, buffer_unwatched, hs, advance_unwatched, hf]
    rfl
  | case3 line r hs r' hf hzero =>
    rw [takeLine_eq, buffer_unwatched, hs, advance_unwatched, hf]
    exact if_pos hzero
  | case4 line r hs r' hf hne =>
    rw [takeLine_eq, buffer_unwatched, hs, advance_unwatched, hf]
    exact if_neg hne
  | case5 line r hs r' hf ih =>
    rw [takeLine_eq, buffer_unwatched, hs, advance_unwatched, hf]
    exact ih

theorem takeExact_unwatched (missing : Nat) (got : Bytes) (r : BufferedReader (Watched σ)) :
    takeExact missing got r.unwatched = unwatchedBehind (takeExact missing got r) := by
  fun_induction takeExact missing got r with
  | case1 missing got r hle =>
    rw [takeExact_eq]
    exact if_pos hle
  | case2 missing got r hlt e r' hf =>
    rw [takeExact_eq, buffer_unwatched, if_neg hlt, fill_unwatched, hf]
    rfl
  | case3 missing got r hlt r' hf got' =>
    rw [takeExact_eq, buffer_unwatched, if_neg hlt, fill_unwatched, hf]
    rfl
  | case4 missing got r hlt r' hf ih =>
    rw [takeExact_eq, buffer_unwatched, if_neg hlt, fill_unwatched, hf]
    exact ih

theorem takeToEnd_unwatched (got : Bytes) (r : BufferedReader (Watched σ)) :
    takeToEnd got r.unwatched = unwatchedBehind (takeToEnd got r) := by
  fun_induction takeToEnd got r with
  | case1 got r e r' hf =>
    rw [takeToEnd_eq, fill_unwatched, hf]
    rfl
  | case2 got r r' hf =>
    rw [takeToEnd_eq, fill_unwatched, hf]
    rfl
  | case3 got r r' hf ih =>
    rw [takeToEnd_eq, fill_unwatched, hf]
    exact ih

theorem perform_unwatched (op : Operation) (r : BufferedReader (Watched σ)) :
    op.perform r.unwatched = unwatchedBehind (op.perform r) := by
  cases op with
  | line =>
    have h : ByteReader.readLine r.unwatched = unwatchedBehind (ByteReader.readLine r) :=
      takeLine_unwatched [] { r with lastTaken := 0 }
    rw [Operation.perform, h]
    rfl
  | exact count =>
    have h : ByteReader.readExact count r.unwatched =
        unwatchedBehind (ByteReader.readExact count r) :=
      takeExact_unwatched count [] { r with lastTaken := 0 }
    rw [Operation.perform, h]
    rfl
  | toEnd =>
    have h : ByteReader.readToEnd r.unwatched = unwatchedBehind (ByteReader.readToEnd r) :=
      takeToEnd_unwatched [] { r with lastTaken := 0 }
    rw [Operation.perform, h]
    rfl

/-- **Watching is of no consequence.**  The reader over the source itself answers the same and
comes to the same state. -/
theorem performAll_unwatched (ops : List Operation) (r : BufferedReader (Watched σ)) :
    performAll ops r.unwatched = unwatchedBehind (performAll ops r) := by
  induction ops generalizing r with
  | nil => rfl
  | cons op ops ih =>
    rw [performAll, perform_unwatched]
    simp only [unwatchedBehind, ih]
    rfl

/-! ### The reads that are made -/

/-- What becomes of a reader that is to be filled.  At its end nothing is read.  Otherwise the source
is read once, for no more than the capacity, and the answer is all that is buffered. -/
inductive Filled (r : BufferedReader (Watched σ)) : BufferedReader (Watched σ) → Prop
  | atEnd (hend : r.atEnd = true) : Filled r { r with buffer := [] }
  | read {r' read} (hend : r.atEnd = false) (hlimit : read.limit = r.capacity)
    (hreads : r'.source.reads = r.source.reads ++ [read]) (hbuffer : r'.buffer = read.octets)
    (hle : r'.buffer.length ≤ r.capacity) (hcapacity : r'.capacity = r.capacity)
    (hnothing : read.answer = .ok [] → r'.atEnd = true) : Filled r r'

theorem filled (r : BufferedReader (Watched σ)) : Filled r r.fill.2 := by
  rw [fill]
  by_cases hend : r.atEnd = true
  · rw [if_pos hend]
    exact .atEnd hend
  · have hend' : r.atEnd = false := by simpa using hend
    have hread : ByteSource.read r.capacity r.source = Watched.read r.capacity r.source := rfl
    rw [if_neg hend, hread, Watched.read]
    rcases hr : ByteSource.read r.capacity r.source.source with ⟨e | _ | ⟨b, bs⟩, s⟩
    · exact .read hend' rfl rfl rfl (Nat.zero_le _) rfl (by simp)
    · exact .read hend' rfl rfl rfl (Nat.zero_le _) rfl (fun _ => rfl)
    · exact .read hend' rfl rfl rfl (ByteSource.length_read_le hr) rfl (by simp)

/-- What holds of a reader with that capacity, whatever has been done with it. -/
structure Frugal (capacity : Nat) (r : BufferedReader (Watched σ)) : Prop where
  buffer : r.buffer.length ≤ capacity
  /-- A read that returned nothing is the end. -/
  atEnd : ∀ read ∈ r.source.reads, read.answer = .ok [] → r.atEnd = true
  capacity_eq : r.capacity = capacity

omit [ByteSource σ] in
theorem Frugal.ne_nothing {capacity : Nat} {r : BufferedReader (Watched σ)} (h : Frugal capacity r)
    (hend : r.atEnd = false) : ∀ read ∈ r.source.reads, read.answer ≠ .ok [] := by
  intro read hmem hanswer
  rw [h.atEnd read hmem hanswer] at hend
  cases hend

omit [ByteSource σ] in
theorem Frugal.filled {capacity : Nat} {r r' : BufferedReader (Watched σ)} (h : Frugal capacity r)
    (hfilled : Filled r r') : Frugal capacity r' := by
  cases hfilled with
  | atEnd hend => exact ⟨Nat.zero_le _, fun _ _ _ => hend, h.capacity_eq⟩
  | read hend hlimit hreads hbuffer hle hcapacity hnothing =>
    refine ⟨h.capacity_eq ▸ hle, fun read hmem hanswer => ?_, hcapacity.trans h.capacity_eq⟩
    rw [hreads] at hmem
    rcases List.mem_append.mp hmem with hmem | hmem
    · exact absurd hanswer (h.ne_nothing hend read hmem)
    · rw [List.mem_singleton.mp hmem] at hanswer
      exact hnothing hanswer

/-- Reads that an operation makes behind earlier ones, where those octets have been available to it.
Each asks for no more than the capacity, is made when what is available does not settle the
operation, and not behind one that returned nothing. -/
def ForNeed (op : Operation) (capacity : Nat) (available : Bytes)
    (earlier reads : List SourceRead) : Prop :=
  ∀ front read behind, reads = front ++ read :: behind →
    read.limit = capacity ∧ read.octets.length ≤ capacity ∧
      ¬ op.SettledBy (available ++ front.flatMap SourceRead.octets) ∧
        ∀ before ∈ earlier ++ front, before.answer ≠ .ok []

theorem forNeed_nil {op : Operation} {capacity : Nat} {available : Bytes}
    {earlier : List SourceRead} : ForNeed op capacity available earlier [] := by
  intro front read behind h
  simp at h

theorem forNeed_cons {op : Operation} {capacity : Nat} {available : Bytes}
    {earlier reads : List SourceRead} {read : SourceRead} (hlimit : read.limit = capacity)
    (hle : read.octets.length ≤ capacity) (hneed : ¬ op.SettledBy available)
    (hno : ∀ before ∈ earlier, before.answer ≠ .ok [])
    (hrest : ForNeed op capacity (available ++ read.octets) (earlier ++ [read]) reads) :
    ForNeed op capacity available earlier (read :: reads) := by
  intro front read' behind h
  rcases List.cons_eq_append_iff.mp h with ⟨rfl, hcons⟩ | ⟨front', rfl, hreads⟩
  · cases hcons
    rw [List.flatMap_nil, List.append_nil, List.append_nil]
    exact ⟨hlimit, hle, hneed, hno⟩
  · have hread := hrest front' read' behind hreads
    rw [List.append_assoc, List.append_assoc] at hread
    exact hread

omit [ByteSource σ] in
/-- Filling a reader makes at most one read, and what is read for need behind it is so with it. -/
theorem Filled.forNeed {op : Operation} {capacity : Nat} {available : Bytes}
    {r r₁ : BufferedReader (Watched σ)} (h : Filled r r₁) (hr : Frugal capacity r)
    (hneed : ¬ op.SettledBy available) :
    ∃ first, r₁.source.reads = r.source.reads ++ first ∧
      ∀ reads, ForNeed op capacity (available ++ r₁.buffer) r₁.source.reads reads →
        ForNeed op capacity available r.source.reads (first ++ reads) := by
  cases h with
  | atEnd hend =>
    refine ⟨[], (List.append_nil _).symm, fun reads hreads => ?_⟩
    rw [List.append_nil] at hreads
    exact hreads
  | @read _ read hend hlimit hreads hbuffer hle hcapacity hnothing =>
    rw [hr.capacity_eq] at hlimit hle
    rw [hbuffer] at hle
    refine ⟨[read], hreads, fun reads hrest =>
      forNeed_cons hlimit hle hneed (hr.ne_nothing hend) ?_⟩
    rw [← hbuffer, ← hreads]
    exact hrest

/-- **What an operation reads.**  It reads for need, and leaves a reader that stays so. -/
theorem Course.forNeed {op : Operation} {held : Bytes} {capacity : Nat}
    {r r' : BufferedReader (Watched σ)} (h : Course op held r r') (hr : Frugal capacity r) :
    Frugal capacity r' ∧ ∃ reads, r'.source.reads = r.source.reads ++ reads ∧
      ForNeed op capacity (held ++ r.buffer) r.source.reads reads := by
  induction h with
  | @settled held r after n hsettled hafter =>
    refine ⟨⟨Nat.le_trans hafter.length_le hr.buffer, hr.atEnd, hr.capacity_eq⟩, [], ?_,
      forNeed_nil⟩
    rw [List.append_nil]
  -- Handing out the buffer changes nothing of what has been available.
  | @handsOut held r r' n hneed hrest ih =>
    obtain ⟨hr', reads, hreads, hfor⟩ := ih ⟨Nat.zero_le _, hr.atEnd, hr.capacity_eq⟩
    rw [List.append_nil] at hfor
    exact ⟨hr', reads, hreads, hfor⟩
  -- The read that fills the buffer stands in front of those that the operation makes behind it.
  | @fills held r r₁ r' hneed hempty hfill hrest ih =>
    have hfilled := r.filled
    rw [hfill] at hfilled
    obtain ⟨first, hfirst, hfor₁⟩ := hfilled.forNeed hr hneed
    obtain ⟨hr', reads, hreads, hfor⟩ := ih (hr.filled hfilled)
    rw [hfirst, List.append_assoc] at hreads
    rw [hempty, List.append_nil]
    exact ⟨hr', first ++ reads, hreads, hfor₁ reads hfor⟩
  | @ends held r r₁ answer n hneed hempty hfill hanswer =>
    have hfilled := r.filled
    rw [hfill] at hfilled
    obtain ⟨first, hfirst, hfor₁⟩ := hfilled.forNeed hr hneed
    have hr₁ := hr.filled hfilled
    have hfor := hfor₁ [] forNeed_nil
    rw [List.append_nil] at hfor
    rw [hempty, List.append_nil]
    exact ⟨⟨hr₁.buffer, hr₁.atEnd, hr₁.capacity_eq⟩, first, hfirst, hfor⟩

theorem frugal_performAll {capacity : Nat} {r : BufferedReader (Watched σ)}
    (hr : Frugal capacity r) (ops : List Operation) : Frugal capacity (performAll ops r).2 := by
  induction ops generalizing r with
  | nil => exact hr
  | cons op ops ih =>
    have hr' : Frugal capacity { r with lastTaken := 0 } := ⟨hr.buffer, hr.atEnd, hr.capacity_eq⟩
    exact ih ((course_perform op r).forNeed hr').1

/-- **The source is read for need.**  Let any operations be performed on a reader over a source that
is watched, which does what the reader over the source itself does.  Then its buffer holds no more
than the capacity, and one more operation goes on like this.

It hands out the buffer and fills it when it is empty, in turns, until what it has been handed
settles it or the filling fails (`Course`).  The reads that it makes ask for no more than the
capacity, and each is made when what the buffer held and the reads so far returned does not settle
the operation: no line feed is there, or there are fewer octets than the block has, or everything is
asked for.  No read is made behind one that has returned nothing, whichever operation made that.
If the buffer settles the operation, the source is not touched. -/
theorem reads_for_need (source : σ) (capacity : Nat) (charset : LineCharset)
    (ops : List Operation) (op : Operation) :
    let r := (performAll ops (ofSource (Watched.mk source []) capacity charset)).2
    let r' := (op.perform r).2
    performAll (ops ++ [op]) (ofSource source capacity charset) =
        unwatchedBehind (performAll (ops ++ [op]) (ofSource ⟨source, []⟩ capacity charset)) ∧
      r.buffer.length ≤ max capacity 1 ∧
      Course op [] { r with lastTaken := 0 } r' ∧
      (∃ reads, r'.source.reads = r.source.reads ++ reads ∧
        ∀ front read behind, reads = front ++ read :: behind →
          read.limit = max capacity 1 ∧ read.octets.length ≤ max capacity 1 ∧
            ¬ op.SettledBy (r.buffer ++ front.flatMap SourceRead.octets) ∧
              ∀ before ∈ r.source.reads ++ front, before.answer ≠ .ok []) ∧
      (op.SettledBy r.buffer → r'.source = r.source) := by
  intro r r'
  have hstart : Frugal (max capacity 1) (ofSource (Watched.mk source []) capacity charset) :=
    ⟨Nat.zero_le _, List.forall_mem_nil _, rfl⟩
  have hr : Frugal (max capacity 1) r := frugal_performAll hstart ops
  have hcourse : Course op [] { r with lastTaken := 0 } r' := course_perform op r
  obtain ⟨-, reads, hreads, hfor⟩ := hcourse.forNeed ⟨hr.buffer, hr.atEnd, hr.capacity_eq⟩
  exact ⟨performAll_unwatched _ (ofSource ⟨source, []⟩ capacity charset), hr.buffer, hcourse,
    ⟨reads, hreads, hfor⟩, hcourse.source_eq⟩

end BufferedReader

end HttpWire
