import HttpWire.Proofs.Body.Delimiter
import HttpWire.Proofs.Field.Head
import HttpWire.Proofs.Reading.Position

/-!
# The sections of a multipart body

`Sections` says how octets that begin with a delimiter line are cut into parts: such a line, a
header block, and what stands in front of the next delimiter line, up to the closing line or to the
very end.  Of what stands there one line break belongs to the delimiter line behind it.

`scan` finds the sections behind whatever stands in front of them, and finds nothing else
(`scan_eq_ok_iff`), so a body is read as its sections (`ofBytes_eq_ok_iff`).  It complains of a
missing delimiter exactly where there is none (`ofBytes_eq_noDelimiter_iff`).

The invariant of all that is that the position is right: behind so many octets of the body stands
what the reader still holds (`StandsAt`).
-/

namespace HttpWire

namespace Multipart

/-! ### The sections -/

/-- The part whose header block stands behind a delimiter line at a position. -/
def OpenPart.begun (headers : Headers) (position : Nat) (line head : Bytes) : OpenPart :=
  { headers, start := position + line.length, content := position + line.length + head.length }

/-- Octets of `raw` that stand at a position and begin with a delimiter line are cut into parts, of
which `index` others stand in front, and an epilogue. -/
inductive Sections (boundary : Text) (raw : Bytes) : Nat → Nat → Bytes → List Part → Bytes → Prop
  | closed {index position line epilogue} (hfirst : FirstLine line epilogue)
      (hline : DelimiterLine boundary .closing line) :
      Sections boundary raw index position (line ++ epilogue) [] epilogue
  /-- Without a closing line the last part goes on to the end. -/
  | unclosed {index position line headers head body name} (hfirst : FirstLine line (head ++ body))
      (hline : DelimiterLine boundary .opening line) (hhead : HeadOf headers head)
      (hname : Part.nameOf headers index = .ok name) (hno : NoDelimiter boundary body) :
      Sections boundary raw index position (line ++ (head ++ body))
        [(OpenPart.begun headers position line head).closed raw name raw.length] []
  | part {index position line headers head region name rest parts epilogue}
      (hfirst : FirstLine line (head ++ (region ++ rest)))
      (hline : DelimiterLine boundary .opening line) (hhead : HeadOf headers head)
      (hname : Part.nameOf headers index = .ok name) (hno : NoDelimiter boundary region)
      (hends : EndsLine region)
      (hrest : Sections boundary raw (index + 1)
        (position + line.length + head.length + region.length) rest parts epilogue) :
      Sections boundary raw index position (line ++ (head ++ (region ++ rest)))
        ((OpenPart.begun headers position line head).closed raw name
          (position + line.length + head.length + (dropLineBreak region).length) :: parts) epilogue

variable {boundary : Text} {raw : Bytes} {parts parts' found : List Part}
  {opened : Option OpenPart} {p : OpenPart} {m : Multipart} {index position i : Nat}
  {line head region rest after epilogue : Bytes}

theorem Sections.ne_nil (h : Sections boundary raw index position rest found epilogue) :
    rest ≠ [] := by
  cases h with
  | closed hfirst => simp [hfirst.ne_nil]
  | unclosed hfirst => simp [hfirst.ne_nil]
  | part hfirst => simp [hfirst.ne_nil]

/-! ### The reader of a body -/

/-- A reader of octets in memory is the flat reader, in whatever pieces they fill its buffer. -/
theorem flattensTo_reader (raw : Bytes) :
    BufferedReader.FlattensTo Pieces.regime (reader raw) (FlatReader.utf8 raw 0) := by
  refine ⟨trivial, ?_⟩
  have hpending : (reader raw).pending = raw := Pieces.upcoming_singleton raw
  rw [BufferedReader.flatten, hpending]
  rfl

theorem ofBytes_eq (raw : Bytes) (boundary : Text) :
    ofBytes raw boundary = scan boundary raw [] none 0 (FlatReader.utf8 raw 0) := by
  have hlost (e : Stop ReceiveError) : ¬ (Pieces.regime).lost e := fun h => h.1
  exact (BufferedReader.lockstep_flatten Pieces.regime).scan hlost boundary raw [] none 0
    (flattensTo_reader raw)

/-! ### One line -/

theorem scan_nil (i : Nat) :
    scan boundary raw parts opened position (FlatReader.utf8 [] i) =
      match opened with
      | none => .error (.multipart (.noDelimiter boundary))
      | some p => (close raw parts p raw.length).map fun parts => { parts } := by
  cases opened with
  | none => rw [scan_eq, FlatReader.readLine_nil]
  | some p => rw [scan_eq, FlatReader.readLine_nil]

/-- Other lines are passed over. -/
theorem scan_skip (hb : Utf8.replacement ∉ boundary) (hfirst : FirstLine line after)
    (hline : ∀ kind, ¬ DelimiterLine boundary kind line) (i : Nat) :
    scan boundary raw parts opened position (FlatReader.utf8 (line ++ after) i) =
      scan boundary raw parts opened (position + line.length)
        (FlatReader.utf8 after line.length) := by
  rw [scan_eq, hfirst.readLine_eq]
  simp only [ofLine?_eq_none hb hline, FlatReader.lastTaken_utf8]

/-- A closing line ends the last part. -/
theorem scan_closing (hb : Utf8.replacement ∉ boundary) (hfirst : FirstLine line after)
    (hline : DelimiterLine boundary .closing line) (hat : StandsAt raw position (line ++ after))
    (i : Nat) :
    scan boundary raw parts opened position (FlatReader.utf8 (line ++ after) i) =
      (closeBefore raw parts opened position).map fun parts => { parts, epilogue := after } := by
  rw [scan_eq, hfirst.readLine_eq]
  simp only [(ofLine?_decodeLossy_iff hb).mpr hline, FlatReader.lastTaken_utf8, hat.behind.drop_eq]
  cases closeBefore raw parts opened position <;> rfl

/-- Any other delimiter line ends a part, and a header block begins the next. -/
theorem scan_opening (hb : Utf8.replacement ∉ boundary) (hfirst : FirstLine line after)
    (hline : DelimiterLine boundary .opening line) (i : Nat) :
    scan boundary raw parts opened position (FlatReader.utf8 (line ++ after) i) =
      match closeBefore raw parts opened position with
      | .error e => .error e
      | .ok parts =>
        match Headers.readBlock 0 {} (FlatReader.utf8 after line.length) with
        | (.error e, _, _) => .error e.receiveError
        | (.ok length, headers, r) =>
          scan boundary raw parts
            (some { headers, start := position + line.length
                    content := position + line.length + length })
            (position + line.length + length) r := by
  rw [scan_eq, hfirst.readLine_eq]
  simp only [(ofLine?_decodeLossy_iff hb).mpr hline, FlatReader.lastTaken_utf8]
  cases closeBefore raw parts opened position with
  | error e => rfl
  | ok parts' =>
    rcases Headers.readBlock 0 {} (FlatReader.utf8 after line.length) with
      ⟨e | length, headers, r⟩ <;> rfl

/-- Behind a header block the part is open. -/
theorem scan_head (hb : Utf8.replacement ∉ boundary) {headers : Headers}
    (hfirst : FirstLine line (head ++ rest)) (hline : DelimiterLine boundary .opening line)
    (hhead : HeadOf headers head) (hclose : closeBefore raw parts opened position = .ok parts')
    (i : Nat) :
    ∃ j, scan boundary raw parts opened position (FlatReader.utf8 (line ++ (head ++ rest)) i) =
      scan boundary raw parts' (some (.begun headers position line head))
        (position + line.length + head.length) (FlatReader.utf8 rest j) := by
  obtain ⟨last, hread⟩ := hhead rest line.length
  refine ⟨last, ?_⟩
  rw [scan_opening hb hfirst hline, hclose]
  simp only [hread]
  rfl

/-- Octets without delimiter lines are passed over. -/
theorem scan_region (hb : Utf8.replacement ∉ boundary) (hno : NoDelimiter boundary region)
    (hends : EndsLine region ∨ rest = []) (raw : Bytes) (parts : List Part)
    (opened : Option OpenPart) (position i : Nat) :
    ∃ j, scan boundary raw parts opened position (FlatReader.utf8 (region ++ rest) i) =
      scan boundary raw parts opened (position + region.length) (FlatReader.utf8 rest j) := by
  induction region using line_induction generalizing position i with
  | nil => exact ⟨i, rfl⟩
  | line first after hfirst ih =>
    obtain ⟨hline, hno'⟩ := hfirst.noDelimiter_iff.mp hno
    obtain ⟨j, hskip⟩ := ih hno' (hends.imp_left EndsLine.of_append) (position + first.length)
      first.length
    refine ⟨j, ?_⟩
    rw [List.append_assoc, scan_skip hb (hfirst.append hends) hline, hskip, List.length_append,
      Nat.add_assoc]

/-- If nothing else is left they are the end of all. -/
theorem scan_last (hb : Utf8.replacement ∉ boundary) (hno : NoDelimiter boundary rest) (i : Nat) :
    scan boundary raw parts opened position (FlatReader.utf8 rest i) =
      match opened with
      | none => .error (.multipart (.noDelimiter boundary))
      | some p => (close raw parts p raw.length).map fun parts => { parts } := by
  obtain ⟨j, hskip⟩ := scan_region hb hno (.inr rfl) raw parts opened position i
  rw [List.append_nil] at hskip
  rw [hskip, scan_nil]

/-! ### Closing a part -/

/-- The octet in front of a position is the last one of those that end there. -/
theorem getElem?_pred_iff {lower : Nat} {b : UInt8} (hat : StandsAt raw lower (region ++ rest)) :
    lower < lower + region.length ∧ raw[lower + region.length - 1]? = some b ↔
      region.getLast? = some b := by
  rcases List.eq_nil_or_concat region with rfl | ⟨before, c, rfl⟩
  · simp
  · rw [List.concat_eq_append, List.append_assoc] at hat
    have hget : raw[lower + before.length]? = some c := hat.getElem?_eq
    have hlength : lower + (before ++ [c]).length = lower + before.length + 1 := by
      rw [List.length_append, List.length_singleton, Nat.add_assoc]
    rw [List.concat_eq_append, hlength, Nat.add_sub_cancel, hget, List.getLast?_concat]
    exact and_iff_right (by omega)

/-- The line break is looked for where it stands. -/
theorem beforeLineBreak_eq {lower : Nat} (hat : StandsAt raw lower (region ++ rest)) :
    beforeLineBreak raw lower (lower + region.length) = lower + (dropLineBreak region).length := by
  have htwo (n : Nat) : n - 2 = n - 1 - 1 := rfl
  rw [beforeLineBreak, dropLineBreak]
  simp only [getElem?_pred_iff hat]
  by_cases hlast : region.getLast? = some lineFeed
  · obtain ⟨before, rfl⟩ := List.getLast?_eq_some_iff.mp hlast
    rw [List.append_assoc] at hat
    have hlength : lower + (before ++ [lineFeed]).length - 1 = lower + before.length := by
      rw [List.length_append, List.length_singleton, ← Nat.add_assoc, Nat.add_sub_cancel]
    rw [if_pos hlast, if_pos hlast, List.dropLast_concat, dropReturn, htwo, hlength]
    simp only [getElem?_pred_iff hat]
    by_cases hreturn : before.getLast? = some carriageReturn
    · obtain ⟨line, rfl⟩ := List.getLast?_eq_some_iff.mp hreturn
      rw [if_pos hreturn, if_pos hreturn, List.dropLast_concat, List.length_append,
        List.length_singleton, ← Nat.add_assoc, Nat.add_sub_cancel]
    · rw [if_neg hreturn, if_neg hreturn]
  · rw [if_neg hlast, if_neg hlast]

theorem close_eq_ok_iff {stop : Nat} :
    close raw parts p stop = .ok parts' ↔
      ∃ name, Part.nameOf p.headers parts.length = .ok name ∧
        parts' = parts ++ [p.closed raw name stop] := by
  rw [close]
  cases Part.nameOf p.headers parts.length with
  | error e => simp
  | ok name => simp [eq_comm]

theorem close_eq_ok {stop : Nat} {name : Text}
    (hname : Part.nameOf p.headers parts.length = .ok name) :
    close raw parts p stop = .ok (parts ++ [p.closed raw name stop]) :=
  close_eq_ok_iff.mpr ⟨name, hname, rfl⟩

/-- A part ends in front of the line break before the next delimiter line. -/
theorem closeBefore_begun {headers : Headers}
    (hat : StandsAt raw position (line ++ (head ++ (region ++ rest)))) :
    closeBefore raw parts (some (.begun headers position line head))
        (position + line.length + head.length + region.length) =
      close raw parts (.begun headers position line head)
        (position + line.length + head.length + (dropLineBreak region).length) := by
  rw [← beforeLineBreak_eq hat.behind.behind]
  rfl

/-! ### The stretches of a part -/

theorem head_closed {headers : Headers} {name : Text} {stop : Nat}
    (hat : StandsAt raw position (line ++ (head ++ rest))) :
    ((OpenPart.begun headers position line head).closed raw name stop).head = head :=
  hat.behind.extract_eq

theorem body_closed {headers : Headers} {name : Text} {body : Bytes}
    (hat : StandsAt raw position (line ++ (head ++ (body ++ rest)))) :
    ((OpenPart.begun headers position line head).closed raw name
      (position + line.length + head.length + body.length)).body = body :=
  hat.behind.behind.extract_eq

/-! ### Sections are found -/

/-- Sections are read, with an open part in front of them or without. -/
theorem scan_of_sections (hb : Utf8.replacement ∉ boundary)
    (h : Sections boundary raw index position rest found epilogue)
    (hat : StandsAt raw position rest)
    (hclose : closeBefore raw parts opened position = .ok parts') (hindex : parts'.length = index)
    (i : Nat) :
    scan boundary raw parts opened position (FlatReader.utf8 rest i) =
      .ok { parts := parts' ++ found, epilogue } := by
  induction h generalizing parts opened parts' i with
  | closed hfirst hline =>
    rw [scan_closing hb hfirst hline hat, hclose, List.append_nil]
    rfl
  | @unclosed index position line headers head body name hfirst hline hhead hname hno =>
    subst hindex
    obtain ⟨j, hscan⟩ := scan_head hb hfirst hline hhead hclose i
    have hclose' : close raw parts' (.begun headers position line head) raw.length = _ :=
      close_eq_ok hname
    rw [hscan, scan_last hb hno]
    simp only [hclose']
    rfl
  | @part index position line headers head region name rest parts'' epilogue hfirst hline hhead
      hname hno hends hrest ih =>
    subst hindex
    obtain ⟨j, hscan⟩ := scan_head hb hfirst hline hhead hclose i
    obtain ⟨k, hskip⟩ := scan_region hb hno (.inl hends) raw parts'
      (some (.begun headers position line head)) (position + line.length + head.length) j
    have hclose' : closeBefore raw parts' (some (.begun headers position line head)) _ = _ :=
      (closeBefore_begun hat).trans (close_eq_ok hname)
    rw [hscan, hskip, ih hat.behind.behind.behind hclose' List.length_append k, List.append_assoc,
      List.singleton_append]

/-! ### Reading step by step -/

/-- **The cases of reading parts.**  What holds of each way in which reading goes on or ends holds
of what is read.  A line and a header block each take octets, so there is always less to read. -/
theorem scan_induction (hb : Utf8.replacement ∉ boundary)
    {P : List Part → Option OpenPart → Nat → Bytes → Except ReceiveError Multipart → Prop}
    (nothing : ∀ parts position,
      P parts none position [] (.error (.multipart (.noDelimiter boundary))))
    (ended : ∀ parts p position,
      P parts (some p) position [] ((close raw parts p raw.length).map fun parts => { parts }))
    (skip : ∀ parts opened position line after x, FirstLine line after →
      (∀ kind, ¬ DelimiterLine boundary kind line) →
        P parts opened (position + line.length) after x →
          P parts opened position (line ++ after) x)
    (unnamed : ∀ parts opened position kind line after e, FirstLine line after →
      DelimiterLine boundary kind line → closeBefore raw parts opened position = .error e →
        P parts opened position (line ++ after) (.error e))
    (closing : ∀ parts opened position parts' line after, FirstLine line after →
      DelimiterLine boundary .closing line → closeBefore raw parts opened position = .ok parts' →
        P parts opened position (line ++ after) (.ok { parts := parts', epilogue := after }))
    (badHead : ∀ parts opened position line after e, FirstLine line after →
      DelimiterLine boundary .opening line →
        (Headers.readBlock 0 {} (FlatReader.utf8 after line.length)).1 = .error e →
          P parts opened position (line ++ after) (.error e.receiveError))
    (opening : ∀ parts opened position parts' headers line head rest x,
      StandsAt raw position (line ++ (head ++ rest)) → FirstLine line (head ++ rest) →
        DelimiterLine boundary .opening line → HeadOf headers head →
          closeBefore raw parts opened position = .ok parts' →
            P parts' (some (.begun headers position line head))
              (position + line.length + head.length) rest x →
                P parts opened position (line ++ (head ++ rest)) x)
    (parts : List Part) (opened : Option OpenPart) {position : Nat} {rest : Bytes}
    (hat : StandsAt raw position rest) (i : Nat) :
    P parts opened position rest
      (scan boundary raw parts opened position (FlatReader.utf8 rest i)) := by
  induction hn : rest.length using Nat.strongRecOn generalizing rest parts opened position i with
  | ind n ih =>
    by_cases hne : rest = []
    · subst hne
      rw [scan_nil]
      cases opened with
      | none => exact nothing parts position
      | some p => exact ended parts p position
    · obtain ⟨line, after, rfl, hfirst⟩ := exists_firstLine hne
      have hpos : 0 < line.length := List.length_pos_iff.mpr hfirst.ne_nil
      rw [List.length_append] at hn
      by_cases hline : ∀ kind, ¬ DelimiterLine boundary kind line
      · rw [scan_skip hb hfirst hline]
        exact skip parts opened position line after _ hfirst hline
          (ih after.length (by omega) parts opened hat.behind _ rfl)
      · obtain ⟨kind, hline⟩ : ∃ kind, DelimiterLine boundary kind line := by
          simpa using hline
        cases hclose : closeBefore raw parts opened position with
        | error e =>
          have hscan : scan boundary raw parts opened position
              (FlatReader.utf8 (line ++ after) i) = .error e := by
            cases kind with
            | opening => rw [scan_opening hb hfirst hline, hclose]
            | closing =>
              rw [scan_closing hb hfirst hline hat, hclose]
              rfl
          rw [hscan]
          exact unnamed parts opened position kind line after e hfirst hline hclose
        | ok parts' =>
          cases kind with
          | closing =>
            rw [scan_closing hb hfirst hline hat, hclose]
            exact closing parts opened position parts' line after hfirst hline hclose
          | opening =>
            rw [scan_opening hb hfirst hline, hclose]
            rcases hread : Headers.readBlock 0 {} (FlatReader.utf8 after line.length) with
              ⟨e | length, headers, r⟩
            · simp only
              exact badHead parts opened position line after e hfirst hline
                (congrArg Prod.fst hread)
            · obtain ⟨head, rfl, rfl, hr, hhead⟩ := headOf_of_readBlock hread
              simp only
              rw [hr]
              rw [List.length_append] at hn
              exact opening parts opened position parts' headers line head r.rest _ hat hfirst hline
                hhead hclose (ih r.rest.length (by omega) parts' _ hat.behind.behind _ rfl)

/-! ### Nothing else is found -/

/-- What reading comes to behind the parts so far: sections behind octets without delimiter lines,
or nothing but such octets behind an open part. -/
inductive Scanned (boundary : Text) (raw : Bytes) (parts : List Part) (opened : Option OpenPart)
    (position : Nat) (rest : Bytes) : Multipart → Prop
  | delimited {region rest' epilogue : Bytes} {parts' found : List Part}
      (hrest : rest = region ++ rest') (hno : NoDelimiter boundary region) (hends : EndsLine region)
      (hclose : closeBefore raw parts opened (position + region.length) = .ok parts')
      (hfound : Sections boundary raw parts'.length (position + region.length) rest' found
        epilogue) :
      Scanned boundary raw parts opened position rest { parts := parts' ++ found, epilogue }
  | ended {p : OpenPart} {parts' : List Part} (hopened : opened = some p)
      (hno : NoDelimiter boundary rest) (hclose : close raw parts p raw.length = .ok parts') :
      Scanned boundary raw parts opened position rest { parts := parts' }

/-- Sections at the very beginning need nothing in front of them. -/
theorem Scanned.of_sections (hclose : closeBefore raw parts opened position = .ok parts')
    (hfound : Sections boundary raw parts'.length position rest found epilogue) :
    Scanned boundary raw parts opened position rest { parts := parts' ++ found, epilogue } := by
  have hnil : rest = [] ++ rest := rfl
  exact .delimited hnil noDelimiter_nil (.inl rfl) hclose hfound

/-- A line that is no delimiter line is one of the octets that are passed over. -/
theorem Scanned.skip (h : Scanned boundary raw parts opened (position + line.length) after m)
    (hfirst : FirstLine line after) (hline : ∀ kind, ¬ DelimiterLine boundary kind line) :
    Scanned boundary raw parts opened position (line ++ after) m := by
  cases h with
  | @delimited region rest' epilogue parts' found hrest hno hends hclose hfound =>
    subst hrest
    have hne : region ++ rest' ≠ [] := by simp [hfound.ne_nil]
    have hends' := hfirst.endsLine hne
    have hfirst' : FirstLine line region := by
      generalize region ++ rest' = x at hfirst hne
      cases hfirst with
      | ended hno => exact .ended hno
      | last => exact absurd rfl hne
    have hlength : position + line.length + region.length =
        position + (line ++ region).length := by
      rw [List.length_append, Nat.add_assoc]
    rw [hlength] at hclose hfound
    exact .delimited (List.append_assoc ..).symm (hfirst'.noDelimiter_iff.mpr ⟨hline, hno⟩)
      (hends'.append hends) hclose hfound
  | ended hopened hno hclose =>
    exact .ended hopened (hfirst.noDelimiter_iff.mpr ⟨hline, hno⟩) hclose

/-- What is read behind an opening line and a header block is a section of its own. -/
theorem Scanned.opening {headers : Headers}
    (hat : StandsAt raw position (line ++ (head ++ rest))) (hfirst : FirstLine line (head ++ rest))
    (hline : DelimiterLine boundary .opening line) (hhead : HeadOf headers head)
    (hclose : closeBefore raw parts opened position = .ok parts')
    (h : Scanned boundary raw parts' (some (.begun headers position line head))
      (position + line.length + head.length) rest m) :
    Scanned boundary raw parts opened position (line ++ (head ++ rest)) m := by
  cases h with
  | @delimited region rest' epilogue parts'' found hrest hno hends hclose' hfound =>
    subst hrest
    rw [closeBefore_begun hat, close_eq_ok_iff] at hclose'
    obtain ⟨name, hname, rfl⟩ := hclose'
    rw [List.length_append, List.length_singleton] at hfound
    rw [List.append_assoc, List.singleton_append]
    exact .of_sections hclose (.part hfirst hline hhead hname hno hends hfound)
  | @ended p parts'' hopened hno hclose' =>
    obtain rfl := Option.some.inj hopened
    obtain ⟨name, hname, rfl⟩ := close_eq_ok_iff.mp hclose'
    exact .of_sections hclose (.unclosed hfirst hline hhead hname hno)

theorem scanned_of_scan (hb : Utf8.replacement ∉ boundary) (hat : StandsAt raw position rest)
    (h : scan boundary raw parts opened position (FlatReader.utf8 rest i) = .ok m) :
    Scanned boundary raw parts opened position rest m := by
  refine scan_induction (P := fun parts opened position rest x => ∀ m, x = .ok m →
    Scanned boundary raw parts opened position rest m) hb ?nothing ?ended ?skip ?unnamed ?closing
      ?badHead ?opening parts opened hat i m h
  case nothing =>
    intro parts position m h
    cases h
  case ended =>
    intro parts p position m h
    cases hclose : close raw parts p raw.length with
    | error e =>
      rw [hclose] at h
      cases h
    | ok parts' =>
      rw [hclose] at h
      obtain rfl := Except.ok.inj h
      exact .ended rfl noDelimiter_nil hclose
  case skip =>
    intro parts opened position line after x hfirst hline ih m h
    exact (ih m h).skip hfirst hline
  case unnamed =>
    intro parts opened position kind line after e hfirst hline hclose m h
    cases h
  case closing =>
    intro parts opened position parts' line after hfirst hline hclose m h
    obtain rfl := Except.ok.inj h
    have hscanned := Scanned.of_sections hclose (.closed hfirst hline)
    rwa [List.append_nil] at hscanned
  case badHead =>
    intro parts opened position line after e hfirst hline hread m h
    cases h
  case opening =>
    intro parts opened position parts' headers line head rest x hat hfirst hline hhead hclose ih m h
    exact (ih m h).opening hat hfirst hline hhead hclose

/-- **Reading finds the sections, and nothing else.** -/
theorem scan_eq_ok_iff (hb : Utf8.replacement ∉ boundary) (hat : StandsAt raw position rest) :
    scan boundary raw parts opened position (FlatReader.utf8 rest i) = .ok m ↔
      Scanned boundary raw parts opened position rest m := by
  constructor
  · exact scanned_of_scan hb hat
  · intro h
    cases h with
    | @delimited region rest' epilogue parts' found hrest hno hends hclose hfound =>
      subst hrest
      obtain ⟨j, hskip⟩ := scan_region hb hno (.inl hends) raw parts opened position i
      rw [hskip]
      exact scan_of_sections hb hfound hat.behind hclose rfl j
    | @ended p parts' hopened hno hclose =>
      subst hopened
      rw [scan_last hb hno]
      simp only [hclose]
      rfl

/-- **A body is read as its sections** behind a preamble of lines that delimit nothing. -/
theorem ofBytes_eq_ok_iff (hb : Utf8.replacement ∉ boundary) :
    ofBytes raw boundary = .ok m ↔
      ∃ preamble rest, raw = preamble ++ rest ∧ NoDelimiter boundary preamble ∧
        EndsLine preamble ∧
          Sections boundary raw 0 preamble.length rest m.parts m.epilogue := by
  rw [ofBytes_eq, scan_eq_ok_iff hb (.start raw)]
  constructor
  · intro h
    cases h with
    | @delimited region rest' epilogue parts' found hrest hno hends hclose hfound =>
      obtain rfl : [] = parts' := Except.ok.inj hclose
      rw [Nat.zero_add] at hfound
      exact ⟨region, rest', hrest, hno, hends, hfound⟩
    | ended hopened => cases hopened
  · rintro ⟨preamble, rest, hrest, hno, hends, hfound⟩
    rw [← Nat.zero_add preamble.length] at hfound
    have hclose : closeBefore raw [] none (0 + preamble.length) = .ok [] := rfl
    exact .delimited hrest hno hends hclose hfound

/-! ### Where there is no delimiter line -/

/-- A line in UTF-8 is no error. -/
theorem ne_error_readLine {f : FlatReader} (hutf8 : f.charset = .utf8) (e : Stop ReceiveError) :
    (ByteReader.readLine f).1 ≠ .error e := by
  rw [show ByteReader.readLine f = f.readLine from rfl, FlatReader.readLine, hutf8]
  intro h
  split at h
  · cases h
  · simp only at h
    split at h <;> cases h

/-- What is wrong with a header block is not that delimiters are missing. -/
theorem ne_multipart_of_readBlock {f : FlatReader} {taken : Nat} {h : Headers}
    (hutf8 : f.charset = .utf8) {e : Stop ReceiveError}
    (hr : (Headers.readBlock taken h f).1 = .error e) (fault : MultipartFault) :
    e.receiveError ≠ .multipart fault := by
  fun_induction Headers.readBlock taken h f with
  | case1 taken h f e' f₁ hl => exact absurd (congrArg Prod.fst hl) (ne_error_readLine hutf8 e')
  | case2 =>
    cases hr
    simp [Stop.receiveError]
  | case3 => cases hr
  | case4 =>
    cases hr
    simp [Stop.receiveError]
  | case5 taken h f line f₁ hne hl field hfield ih =>
    have hcharset := FlatReader.charset_readLine f
    rw [hl] at hcharset
    exact ih (hcharset.trans hutf8) hr

theorem close_ne_multipart (fault : MultipartFault) (stop : Nat) :
    close raw parts p stop ≠ .error (.multipart fault) := by
  rw [close]
  cases Part.nameOf p.headers parts.length <;> simp

theorem closeBefore_ne_multipart (fault : MultipartFault) :
    closeBefore raw parts opened position ≠ .error (.multipart fault) := by
  cases opened with
  | none => simp [closeBefore]
  | some p => exact close_ne_multipart fault _

/-- Delimiters are missed only where there is none, and none has been met before. -/
theorem noDelimiter_of_scan (hb : Utf8.replacement ∉ boundary) (hat : StandsAt raw position rest)
    {fault : MultipartFault}
    (h : scan boundary raw parts opened position (FlatReader.utf8 rest i) =
      .error (.multipart fault)) :
    opened = none ∧ NoDelimiter boundary rest := by
  refine scan_induction (P := fun _ opened _ rest x => x = .error (.multipart fault) →
    opened = none ∧ NoDelimiter boundary rest) hb ?nothing ?ended ?skip ?unnamed ?closing ?badHead
      ?opening parts opened hat i h
  case nothing =>
    intro parts position h
    exact ⟨rfl, noDelimiter_nil⟩
  case ended =>
    intro parts p position h
    cases hclose : close raw parts p raw.length with
    | error e =>
      rw [hclose] at h
      obtain rfl := Except.error.inj h
      exact absurd hclose (close_ne_multipart fault _)
    | ok parts' =>
      rw [hclose] at h
      cases h
  case skip =>
    intro parts opened position line after x hfirst hline ih h
    obtain ⟨hopened, hno⟩ := ih h
    exact ⟨hopened, hfirst.noDelimiter_iff.mpr ⟨hline, hno⟩⟩
  case unnamed =>
    intro parts opened position kind line after e hfirst hline hclose h
    obtain rfl := Except.error.inj h
    exact absurd hclose (closeBefore_ne_multipart fault)
  case closing =>
    intro parts opened position parts' line after hfirst hline hclose h
    cases h
  case badHead =>
    intro parts opened position line after e hfirst hline hread h
    exact absurd (Except.error.inj h)
      (ne_multipart_of_readBlock (f := FlatReader.utf8 after line.length) rfl hread fault)
  case opening =>
    -- Behind a delimiter line a part is open, so that no delimiter is missed any more.
    intro parts opened position parts' headers line head rest x hat hfirst hline hhead hclose ih h
    obtain ⟨hnone, -⟩ := ih h
    cases hnone

/-- **A body is refused for want of a delimiter line if and only if it has none.** -/
theorem ofBytes_eq_noDelimiter_iff (hb : Utf8.replacement ∉ boundary) :
    (∃ fault, ofBytes raw boundary = .error (.multipart fault)) ↔ NoDelimiter boundary raw := by
  rw [ofBytes_eq]
  constructor
  · rintro ⟨fault, h⟩
    exact (noDelimiter_of_scan hb (.start raw) h).2
  · intro hno
    rw [scan_last hb hno]
    exact ⟨_, rfl⟩

end Multipart

end HttpWire
