import HttpWire.Proofs.Body.Sections

/-!
# Parts on the wire

A part is sent as a delimiter line, a header block, and a body of any octets with a line break
behind it, in which no line may be a delimiter line.  Parts in a row, behind a preamble and in front
of a closing line, are read as what was sent, octet for octet and in their order
(`Multipart.ofBytes_sent`).  The preamble and what stands behind the closing line have no part in
that.  Without a closing line the last body goes on to the end.

The name of a part is what its disposition gives, or else its number (`Part.nameOf_eq_ok_iff`).
-/

namespace HttpWire

/-! ### Names -/

namespace Part

/-- The disposition that headers give. -/
def Disposition (h : Headers) (v : Parameterized) : Prop :=
  ∃ value, h.get? .contentDisposition = some value ∧ Parameterized.ofText value.textLossy = .ok v

/-- A disposition gives a name: the one of a field of a form, or of a file. -/
inductive Gives (v : Parameterized) : Text → Prop
  | formData {name} (hbase : Text.sameIgnoringCase v.base "form-data".toList = true)
      (hname : v.param? "name".toList = some name) : Gives v name
  | file {name} (hbase : Text.sameIgnoringCase v.base "file".toList = true)
      (hname : v.param? "filename".toList = some name) : Gives v name

/-- The name of a part with such headers, behind `index` others. -/
inductive Named (h : Headers) (index : Nat) : Text → Prop
  | given {v name} (hv : Disposition h v) (hname : Gives v name) : Named h index name
  | numbered (hno : h.get? .contentDisposition = none ∨
      ∃ v, Disposition h v ∧ ∀ name, ¬ Gives v name) : Named h index (Text.ofNat index)

variable {h : Headers} {v : Parameterized} {index : Nat} {name : Text}

theorem dispositionName?_eq_some_iff : dispositionName? v = some name ↔ Gives v name := by
  -- No base is both that of a form and that of a file.
  have hbases : Text.sameIgnoringCase v.base "form-data".toList = true →
      Text.sameIgnoringCase v.base "file".toList = true → False := by
    rw [Text.sameIgnoringCase, Text.sameIgnoringCase, beq_iff_eq, beq_iff_eq]
    intro hform hfile
    rw [hform] at hfile
    exact absurd hfile (by decide)
  rw [dispositionName?]
  constructor
  · intro h
    split at h
    · next hbase => exact .formData hbase h
    · split at h
      · next hbase => exact .file hbase h
      · cases h
  · intro h
    cases h with
    | formData hbase hname => rw [if_pos hbase, hname]
    | file hbase hname => rw [if_neg (fun hform => hbases hform hbase), if_pos hbase, hname]

/-- **A part is named by its disposition, or else by its number.** -/
theorem nameOf_eq_ok_iff : nameOf h index = .ok name ↔ Named h index name := by
  rw [nameOf]
  constructor
  · intro hname
    cases hget : h.get? .contentDisposition with
    | none =>
      rw [hget] at hname
      obtain rfl := Except.ok.inj hname
      exact .numbered (.inl hget)
    | some value =>
      rw [hget] at hname
      simp only at hname
      cases hread : Parameterized.ofText value.textLossy with
      | error e =>
        rw [hread] at hname
        cases hname
      | ok v =>
        rw [hread] at hname
        have hv : Disposition h v := ⟨value, hget, hread⟩
        have hname' : (dispositionName? v).getD (Text.ofNat index) = name := Except.ok.inj hname
        cases hgiven : dispositionName? v with
        | some given =>
          rw [hgiven] at hname'
          obtain rfl : given = name := hname'
          exact .given hv (dispositionName?_eq_some_iff.mp hgiven)
        | none =>
          rw [hgiven] at hname'
          obtain rfl : Text.ofNat index = name := hname'
          refine .numbered (.inr ⟨v, hv, ?_⟩)
          intro name hname
          rw [dispositionName?_eq_some_iff.mpr hname] at hgiven
          cases hgiven
  · intro hname
    cases hname with
    | @given v name hv hname =>
      obtain ⟨value, hget, hread⟩ := hv
      rw [hget]
      simp only [hread, Except.map, dispositionName?_eq_some_iff.mpr hname, Option.getD_some]
    | numbered hno =>
      rcases hno with hget | ⟨v, ⟨value, hget, hread⟩, hno⟩
      · rw [hget]
      · have hnone : dispositionName? v = none := by
          cases hgiven : dispositionName? v with
          | none => rfl
          | some name => exact absurd (dispositionName?_eq_some_iff.mp hgiven) (hno name)
        rw [hget]
        simp only [hread, Except.map, hnone, Option.getD_none]

/-- There is a name unless the disposition cannot be read. -/
theorem exists_named (index : Nat) (haccepted : ∀ value, h.get? .contentDisposition = some value →
    ∃ v, Parameterized.ofText value.textLossy = .ok v) : ∃ name, Named h index name := by
  cases hget : h.get? .contentDisposition with
  | none => exact ⟨_, .numbered (.inl hget)⟩
  | some value =>
    obtain ⟨v, hread⟩ := haccepted value hget
    by_cases hgiven : ∃ name, Gives v name
    · obtain ⟨name, hname⟩ := hgiven
      exact ⟨name, .given ⟨value, hget, hread⟩ hname⟩
    · refine ⟨_, .numbered (.inr ⟨v, ⟨value, hget, hread⟩, ?_⟩)⟩
      exact fun name hname => hgiven ⟨name, hname⟩

/-- What a part shows, wherever in whatever body it stands. -/
structure Shown where
  name : Text
  headers : Headers
  head : Bytes
  body : Bytes

/-- What the part shows. -/
def shown (p : Part) : Shown :=
  { name := p.name, headers := p.headers, head := p.head, body := p.body }

end Part

/-! ### What is sent -/

/-- A part as it is sent. -/
structure SentPart (boundary : Text) where
  /-- What stands behind the delimiter. -/
  padding : Text
  isPadding : ∀ c ∈ padding, c = ' ' ∨ c = '\t'
  ending : LineEnd
  fields : List Field
  head : Bytes
  isHead : BlockOf .utf8 fields head
  /-- The disposition can be read, if there is one. -/
  accepted : ∀ value, (Headers.mk fields).get? .contentDisposition = some value →
    ∃ v, Parameterized.ofText value.textLossy = .ok v
  body : Bytes
  noDelimiter : NoDelimiter boundary (body ++ LineEnd.crlf.octets)

/-- A closing line as it is sent. -/
structure SentEnd (boundary : Text) where
  padding : Text
  isPadding : ∀ c ∈ padding, c = ' ' ∨ c = '\t'
  /-- The end of the line and what stands behind it, unless the line is the end of all. -/
  behind : Option (LineEnd × Bytes)

namespace SentPart

variable {boundary : Text} (p : SentPart boundary)

/-- The delimiter line. -/
def line : Bytes :=
  Utf8.encode (Delimiter.text .opening boundary p.padding) ++ p.ending.octets

/-- The octets of the part, with the line break behind its body. -/
def octets : Bytes :=
  p.line ++ (p.head ++ (p.body ++ LineEnd.crlf.octets))

/-- What the part is read as, behind `index` others. -/
structure ArrivesAs (index : Nat) (s : Part.Shown) : Prop where
  name : Part.Named ⟨p.fields⟩ index s.name
  headers : s.headers = ⟨p.fields⟩
  head : s.head = p.head
  body : s.body = p.body

end SentPart

/-- Parts are read as others, one for one, behind `index` others. -/
inductive Arrive {boundary : Text} : Nat → List (SentPart boundary) → List Part.Shown → Prop
  | nil {index} : Arrive index [] []
  | cons {index p sent s shown} (h : p.ArrivesAs index s) (hs : Arrive (index + 1) sent shown) :
      Arrive index (p :: sent) (s :: shown)

namespace SentEnd

variable {boundary : Text} (e : SentEnd boundary)

/-- The octets of the line and of what stands behind it. -/
def octets : Bytes :=
  Utf8.encode (Delimiter.text .closing boundary e.padding) ++
    match e.behind with
    | none => []
    | some (ending, epilogue) => ending.octets ++ epilogue

/-- What stands behind the line. -/
def epilogue : Bytes :=
  match e.behind with
  | none => []
  | some (_, epilogue) => epilogue

end SentEnd

/-! ### What is read -/

namespace Multipart

section

variable {boundary : Text} {sent : List (SentPart boundary)} {found : List Part}
  {shown : List Part.Shown} {s : Part.Shown} {index position : Nat}
  {raw rest tail preamble epilogue : Bytes}

theorem exists_arrivesAs (p : SentPart boundary) (index : Nat) : ∃ s, p.ArrivesAs index s := by
  obtain ⟨name, hname⟩ := Part.exists_named index p.accepted
  exact ⟨⟨name, ⟨p.fields⟩, p.head, p.body⟩, hname, rfl, rfl, rfl⟩

theorem exists_arrive (sent : List (SentPart boundary)) (index : Nat) :
    ∃ shown, Arrive index sent shown := by
  induction sent generalizing index with
  | nil => exact ⟨[], .nil⟩
  | cons p sent ih =>
    obtain ⟨s, hs⟩ := exists_arrivesAs p index
    obtain ⟨shown, hshown⟩ := ih (index + 1)
    exact ⟨s :: shown, .cons hs hshown⟩

/-- The closing line is a section. -/
theorem sections_of_sentEnd (hr : '\r' ∉ boundary) (hn : '\n' ∉ boundary) (e : SentEnd boundary)
    (raw : Bytes) (index position : Nat) :
    Sections boundary raw index position e.octets [] e.epilogue := by
  obtain ⟨padding, hpadding, behind⟩ := e
  rw [SentEnd.octets, SentEnd.epilogue]
  cases behind with
  | none =>
    obtain ⟨hfirst, hline⟩ := delimiterLine_last hn hpadding
    exact .closed hfirst hline
  | some behind =>
    obtain ⟨ending, epilogue⟩ := behind
    obtain ⟨hfirst, hline⟩ := delimiterLine_ended hr hn hpadding ending epilogue
    simp only
    rw [← List.append_assoc]
    exact .closed hfirst hline

/-- A part that is sent in front of sections is one. -/
theorem sections_of_sentPart (hr : '\r' ∉ boundary) (hn : '\n' ∉ boundary) {p : SentPart boundary}
    (hs : p.ArrivesAs index s) (hat : StandsAt raw position (p.octets ++ rest))
    (hrest : Sections boundary raw (index + 1) (position + p.octets.length) rest found epilogue) :
    ∃ part, part.shown = s ∧
      Sections boundary raw index position (p.octets ++ rest) (part :: found) epilogue := by
  obtain ⟨name, headers, head, body⟩ := s
  obtain ⟨hname, rfl, rfl, rfl⟩ := hs
  have hoctets : p.octets ++ rest =
      p.line ++ (p.head ++ (p.body ++ LineEnd.crlf.octets ++ rest)) := by
    rw [SentPart.octets, List.append_assoc, List.append_assoc]
  have hlength : position + p.octets.length =
      position + p.line.length + p.head.length + (p.body ++ LineEnd.crlf.octets).length := by
    rw [SentPart.octets, List.length_append, List.length_append]
    omega
  obtain ⟨hfirst, hline⟩ := delimiterLine_ended hr hn p.isPadding p.ending
    (p.head ++ (p.body ++ LineEnd.crlf.octets ++ rest))
  rw [hlength] at hrest
  rw [hoctets] at hat ⊢
  refine ⟨_, ?_, .part hfirst hline (headOf_of_blockOf p.isHead) (Part.nameOf_eq_ok_iff.mpr hname)
    p.noDelimiter (endsLine_crlf p.body) hrest⟩
  rw [List.append_assoc] at hat
  rw [dropLineBreak_crlf, Part.shown, head_closed hat, body_closed hat]
  rfl

/-- The last part needs no delimiter line behind it. -/
theorem sections_of_unclosed (hr : '\r' ∉ boundary) (hn : '\n' ∉ boundary) {p : SentPart boundary}
    (hs : p.ArrivesAs index s) (hno : NoDelimiter boundary tail)
    (hat : StandsAt raw position (p.line ++ (p.head ++ tail))) :
    ∃ part, part.shown = { s with body := tail } ∧
      Sections boundary raw index position (p.line ++ (p.head ++ tail)) [part] [] := by
  obtain ⟨name, headers, head, body⟩ := s
  obtain ⟨hname, rfl, rfl, rfl⟩ := hs
  obtain ⟨hfirst, hline⟩ := delimiterLine_ended hr hn p.isPadding p.ending (p.head ++ tail)
  refine ⟨_, ?_, .unclosed hfirst hline (headOf_of_blockOf p.isHead)
    (Part.nameOf_eq_ok_iff.mpr hname) hno⟩
  have hlength : position + p.line.length + p.head.length + tail.length = raw.length :=
    hat.behind.behind.length_eq
  rw [← List.append_nil tail] at hat
  rw [← hlength, Part.shown, head_closed hat, body_closed hat]
  rfl

theorem sections_of_arrive (hr : '\r' ∉ boundary) (hn : '\n' ∉ boundary)
    (h : Arrive index sent shown)
    (hat : StandsAt raw position (sent.flatMap SentPart.octets ++ rest))
    (hrest : Sections boundary raw (index + sent.length)
      (position + (sent.flatMap SentPart.octets).length) rest found epilogue) :
    ∃ parts, parts.map Part.shown = shown ∧
      Sections boundary raw index position (sent.flatMap SentPart.octets ++ rest) (parts ++ found)
        epilogue := by
  induction h generalizing position with
  | nil => exact ⟨[], rfl, hrest⟩
  | @cons index p sent s shown hs hshown ih =>
    rw [List.length_cons, Nat.add_comm sent.length, ← Nat.add_assoc, List.flatMap_cons,
      List.length_append, ← Nat.add_assoc] at hrest
    rw [List.flatMap_cons, List.append_assoc] at hat ⊢
    obtain ⟨parts, hparts, hsections⟩ := ih hat.behind hrest
    obtain ⟨part, hpart, hsections'⟩ := sections_of_sentPart hr hn hs hat hsections
    exact ⟨part :: parts, congrArg₂ List.cons hpart hparts, hsections'⟩

/-- **Reading undoes sending.**  Parts in a row are read as they were sent, in their order, each
with its headers, its body and its name, whatever stands in front of the first delimiter line and
behind the closing one.  If the closing line and all behind it are missing, the body of the last
part is all that stands behind its header block. -/
theorem ofBytes_sent (hr : '\r' ∉ boundary) (hn : '\n' ∉ boundary)
    (hu : Utf8.replacement ∉ boundary) (sent : List (SentPart boundary)) :
    ∃ shown, Arrive 0 sent shown ∧
      (∀ preamble (ending : SentEnd boundary), NoDelimiter boundary preamble → EndsLine preamble →
        ∃ parts, parts.map Part.shown = shown ∧
          ofBytes (preamble ++ (sent.flatMap SentPart.octets ++ ending.octets)) boundary =
            .ok { parts, epilogue := ending.epilogue }) ∧
      ∀ preamble (last : SentPart boundary) tail, NoDelimiter boundary preamble →
        EndsLine preamble → NoDelimiter boundary tail →
          ∃ parts s, last.ArrivesAs sent.length s ∧
            parts.map Part.shown = shown ++ [{ s with body := tail }] ∧
              ofBytes (preamble ++ (sent.flatMap SentPart.octets ++
                (last.line ++ (last.head ++ tail)))) boundary = .ok { parts } := by
  obtain ⟨shown, hshown⟩ := exists_arrive sent 0
  refine ⟨shown, hshown, ?_, ?_⟩
  · intro preamble ending hno hends
    have hat :=
      (StandsAt.start (preamble ++ (sent.flatMap SentPart.octets ++ ending.octets))).behind
    obtain ⟨parts, hparts, hsections⟩ :=
      sections_of_arrive hr hn hshown hat (sections_of_sentEnd hr hn ending _ _ _)
    rw [List.append_nil, Nat.zero_add] at hsections
    exact ⟨parts, hparts, (ofBytes_eq_ok_iff hu).mpr ⟨preamble, _, rfl, hno, hends, hsections⟩⟩
  · intro preamble last tail hno hends htail
    obtain ⟨s, hs⟩ := exists_arrivesAs last sent.length
    have hat := (StandsAt.start (preamble ++ (sent.flatMap SentPart.octets ++
      (last.line ++ (last.head ++ tail))))).behind
    obtain ⟨part, hpart, hlast⟩ := sections_of_unclosed hr hn hs htail hat.behind
    rw [← Nat.zero_add sent.length] at hlast
    obtain ⟨parts, hparts, hsections⟩ := sections_of_arrive hr hn hshown hat hlast
    rw [Nat.zero_add] at hsections
    refine ⟨parts ++ [part], s, hs, ?_,
      (ofBytes_eq_ok_iff hu).mpr ⟨preamble, _, rfl, hno, hends, hsections⟩⟩
    rw [List.map_append, hparts, List.map_singleton, hpart]

/-- A field of a form with octets that are no text, and a part without headers or body, between a
preamble and an epilogue. -/
theorem ofBytes_sent_form :
    ∃ parts, ofBytes (Utf8.encode
        "hi\r\n--b \r\nContent-Disposition: form-data; name=x\r\n\r\n".toList ++ [0x0D, 0xFF] ++
          Utf8.encode "\r\n--b\n\r\n\r\n--b--\r\nbye".toList) "b".toList =
        .ok { parts, epilogue := Utf8.encode "bye".toList } ∧
      parts.map (fun part => (part.name, part.body)) =
        [("x".toList, [0x0D, 0xFF]), ("1".toList, [])] := by
  have hu : Utf8.replacement ∉ "b".toList := by decide
  have hempty (ending : LineEnd) : LineOf .utf8 [] ending.octets :=
    .intro ending nofun List.not_mem_nil
  have hfield :
      (Field.mk .contentDisposition ⟨Utf8.encode "form-data; name=x".toList, by decide⟩).WrittenIn
        "Content-Disposition: form-data; name=x".toList :=
    ⟨"Content-Disposition".toList, " form-data; name=x".toList, rfl, rfl, rfl⟩
  have hline : LineOf .utf8 "Content-Disposition: form-data; name=x".toList
      (Utf8.encode "Content-Disposition: form-data; name=x".toList ++ LineEnd.crlf.octets) :=
    .intro .crlf nofun (by decide)
  have hx : Part.nameOf
      ⟨[⟨.contentDisposition, ⟨Utf8.encode "form-data; name=x".toList, by decide⟩⟩]⟩ 0 =
        .ok "x".toList := by decide +kernel
  have hone : Part.nameOf {} 1 = .ok "1".toList := rfl
  let p : SentPart "b".toList :=
    { padding := [' '], isPadding := List.forall_mem_singleton.mpr (.inl rfl), ending := .crlf
      fields := _, head := _
      isHead := .field hline hfield (.done (hempty .crlf))
      accepted := by
        intro value hget
        obtain rfl := Option.some.inj hget
        exact ⟨⟨"form-data".toList, [("name".toList, "x".toList)]⟩, by decide +kernel⟩
      body := [0x0D, 0xFF]
      noDelimiter := (noDelimiter_iff_all hu).mpr (by decide) }
  let q : SentPart "b".toList :=
    { padding := [], isPadding := List.forall_mem_nil _, ending := .lf, fields := _, head := _
      isHead := .done (hempty .crlf)
      accepted := by
        intro value hget
        cases hget
      body := []
      noDelimiter := (noDelimiter_iff_all hu).mpr (by decide) }
  obtain ⟨shown, harrive, hclosed, -⟩ := ofBytes_sent (by decide) (by decide) hu [p, q]
  obtain ⟨parts, rfl, hread⟩ := hclosed (Utf8.encode "hi\r\n".toList)
    { padding := [], isPadding := List.forall_mem_nil _
      behind := some (.crlf, Utf8.encode "bye".toList) }
    ((noDelimiter_iff_all hu).mpr (by decide)) (.inr ⟨Utf8.encode "hi\r".toList, rfl⟩)
  refine ⟨parts, hread, ?_⟩
  have hmap : parts.map (fun part => (part.name, part.body)) =
      (parts.map Part.shown).map (fun s => (s.name, s.body)) := by
    rw [List.map_map]
    rfl
  rw [hmap]
  generalize parts.map Part.shown = shown at harrive
  cases harrive with
  | cons hp harrive =>
    cases harrive with
    | cons hq harrive =>
      cases harrive
      have hx' := hx.symm.trans (Part.nameOf_eq_ok_iff.mpr hp.name)
      have hone' := hone.symm.trans (Part.nameOf_eq_ok_iff.mpr hq.name)
      rw [List.map_cons, List.map_cons, List.map_nil, ← Except.ok.inj hx', ← Except.ok.inj hone',
        hp.body, hq.body]

end

end Multipart

end HttpWire
