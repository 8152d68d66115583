import HttpWire.Proofs.Body.Sections

/-!
# The parts of a multipart body partition it

Whatever octets a multipart body is made of, the parts that are found in it are stretches of it
(`Part.Lies`) that stand one behind the other, and what is not part of them is a preamble without
delimiter lines, the delimiter lines with the line breaks in front of them, and an epilogue
(`Covers`).  So nothing is lost and nothing is counted twice.  A part without a closing line behind
it goes on to the end.

All of it is read off the sections, since each of them stands where the position says.
-/

namespace HttpWire

/-- A part is a stretch of the body: the header block that is read as its headers, and what stands
behind. -/
structure Part.Lies (raw : Bytes) (p : Part) : Prop where
  parent : p.parent = raw
  start_le : p.start ≤ p.content
  content_le : p.content ≤ p.stop
  stop_le : p.stop ≤ raw.length
  headers : ∃ r, Headers.readBlock 0 {} (Multipart.reader p.head) =
    (.ok p.head.length, p.headers, r)
  length_eq : p.length = p.body.length
  /-- Bodies that are nested in each other come to an end. -/
  body_lt : p.body.length < raw.length

namespace Multipart

/-- The octets between two positions are a delimiter line. -/
structure DelimiterAt (boundary : Text) (kind : Delimiter) (raw : Bytes) (position next : Nat) :
    Prop where
  le : position ≤ next
  first : FirstLine (raw.extract position next) (raw.drop next)
  delimiter : DelimiterLine boundary kind (raw.extract position next)

/-- From a position on, octets are delimiter lines and parts in turns. -/
inductive Covers (boundary : Text) (raw : Bytes) : Nat → List Part → Bytes → Prop
  /-- Behind the closing line there is the epilogue. -/
  | closed {position next} (hline : DelimiterAt boundary .closing raw position next) :
      Covers boundary raw position [] (raw.drop next)
  /-- Without a closing line the last part goes on to the end. -/
  | last {position p} (hline : DelimiterAt boundary .opening raw position p.start)
      (hno : NoDelimiter boundary (raw.drop p.content)) (hstop : p.stop = raw.length) :
      Covers boundary raw position [p] []
  /-- Between a part and the next delimiter line, which begins a line of its own, there is the line
  break that the part would end in, unless there is nothing at all. -/
  | part {position p next parts epilogue}
      (hline : DelimiterAt boundary .opening raw position p.start)
      (hno : NoDelimiter boundary (raw.extract p.content next))
      (hends : EndsLine (raw.extract p.content next)) (hstop : p.stop ≤ next)
      (hbody : p.body = dropLineBreak (raw.extract p.content next))
      (hbreak : AtMostLineBreak (raw.extract p.stop next))
      (hrest : Covers boundary raw next parts epilogue) :
      Covers boundary raw position (p :: parts) epilogue

section

variable {boundary : Text} {raw : Bytes} {found : List Part} {kind : Delimiter} {headers : Headers}
  {name : Text} {index position : Nat} {line head body region rest after epilogue : Bytes}

/-- A header block is read by itself as it is read in front of others. -/
theorem readBlock_reader (hhead : HeadOf headers head) :
    ∃ r, Headers.readBlock 0 {} (reader head) = (.ok head.length, headers, r) := by
  obtain ⟨last, hread⟩ := hhead [] 0
  rw [List.append_nil] at hread
  have hag :=
    (BufferedReader.lockstep_flatten Pieces.regime).readBlock 0 {} (flattensTo_reader head)
  rw [hread] at hag
  obtain ⟨hanswer, hheaders, -⟩ := hag.eq_of_not_lost fun _ _ hlost => hlost.1
  exact ⟨_, Prod.ext hanswer (Prod.ext hheaders rfl)⟩

theorem delimiterAt_of_standsAt (hat : StandsAt raw position (line ++ after))
    (hfirst : FirstLine line after) (hline : DelimiterLine boundary kind line) :
    DelimiterAt boundary kind raw position (position + line.length) := by
  refine ⟨Nat.le_add_right _ _, ?_, ?_⟩
  · rw [hat.extract_eq, hat.behind.drop_eq]
    exact hfirst
  · rw [hat.extract_eq]
    exact hline

/-- A part lies where its section stands. -/
theorem lies_closed (hne : line ≠ []) (hhead : HeadOf headers head)
    (hat : StandsAt raw position (line ++ (head ++ (body ++ rest)))) :
    ((OpenPart.begun headers position line head).closed raw name
      (position + line.length + head.length + body.length)).Lies raw := by
  have hlength : position + line.length + head.length + body.length + rest.length = raw.length :=
    hat.behind.behind.behind.length_eq
  have hpos : 0 < line.length := List.length_pos_iff.mpr hne
  refine ⟨rfl, Nat.le_add_right _ _, Nat.le_add_right _ _, ?_, ?_, ?_, ?_⟩
  · show position + line.length + head.length + body.length ≤ raw.length
    omega
  · rw [head_closed hat]
    exact readBlock_reader hhead
  · rw [body_closed hat]
    exact Nat.add_sub_cancel_left _ _
  · rw [body_closed hat]
    omega

/-- The parts of sections lie in the octets, behind the position at which the sections begin. -/
theorem Sections.lies (h : Sections boundary raw index position rest found epilogue)
    (hat : StandsAt raw position rest) : ∀ p ∈ found, p.Lies raw ∧ position ≤ p.start := by
  induction h with
  | closed hfirst hline =>
    intro p hp
    cases hp
  | @unclosed index position line headers head body name hfirst hline hhead hname hno =>
    intro p hp
    obtain rfl := List.mem_singleton.mp hp
    have hlength : position + line.length + head.length + body.length = raw.length :=
      hat.behind.behind.length_eq
    rw [← List.append_nil body] at hat
    rw [← hlength]
    exact ⟨lies_closed hfirst.ne_nil hhead hat, Nat.le_add_right _ _⟩
  | @part index position line headers head region name rest parts epilogue hfirst hline hhead hname
      hno hends hrest ih =>
    intro p hp
    rcases List.mem_cons.mp hp with rfl | hp
    · obtain ⟨lineBreak, hregion, -⟩ := exists_dropLineBreak_append region
      rw [hregion, List.append_assoc] at hat
      exact ⟨lies_closed hfirst.ne_nil hhead hat, Nat.le_add_right _ _⟩
    · obtain ⟨hlies, hle⟩ := ih hat.behind.behind.behind p hp
      exact ⟨hlies, by omega⟩

/-- The parts of sections stand one behind the other. -/
theorem Sections.pairwise (h : Sections boundary raw index position rest found epilogue)
    (hat : StandsAt raw position rest) : found.Pairwise fun p q => p.stop ≤ q.start := by
  induction h with
  | closed => exact .nil
  | unclosed => exact List.pairwise_singleton _ _
  | @part index position line headers head region name rest parts epilogue hfirst hline hhead hname
      hno hends hrest ih =>
    have hat' := hat.behind.behind.behind
    refine List.pairwise_cons.mpr ⟨?_, ih hat'⟩
    intro q hq
    obtain ⟨-, hle⟩ := hrest.lies hat' q hq
    obtain ⟨lineBreak, hregion, -⟩ := exists_dropLineBreak_append region
    have hlength := congrArg List.length hregion
    rw [List.length_append] at hlength
    show position + line.length + head.length + (dropLineBreak region).length ≤ q.start
    omega

/-- Sections cover the octets from the position on. -/
theorem Sections.covers (h : Sections boundary raw index position rest found epilogue)
    (hat : StandsAt raw position rest) : Covers boundary raw position found epilogue := by
  induction h with
  | closed hfirst hline =>
    have hcovers := Covers.closed (delimiterAt_of_standsAt hat hfirst hline)
    rwa [hat.behind.drop_eq] at hcovers
  | @unclosed index position line headers head body name hfirst hline hhead hname hno =>
    refine .last (delimiterAt_of_standsAt hat hfirst hline) ?_ rfl
    show NoDelimiter boundary (raw.drop (position + line.length + head.length))
    rw [hat.behind.behind.drop_eq]
    exact hno
  | @part index position line headers head region name rest parts epilogue hfirst hline hhead hname
      hno hends hrest ih =>
    have hat' := hat.behind.behind
    have hregion : raw.extract (position + line.length + head.length)
        (position + line.length + head.length + region.length) = region := hat'.extract_eq
    obtain ⟨lineBreak, happend, hbreak⟩ := exists_dropLineBreak_append region
    have hlength : region.length = (dropLineBreak region).length + lineBreak.length := by
      rw [← List.length_append, ← happend]
    have hat'' : StandsAt raw position
        (line ++ (head ++ (dropLineBreak region ++ (lineBreak ++ rest)))) := by
      rwa [happend, List.append_assoc] at hat
    refine .part (delimiterAt_of_standsAt hat hfirst hline) ?no ?ends ?stop ?body ?lineBreak
      (ih hat'.behind)
    case no =>
      show NoDelimiter boundary (raw.extract (position + line.length + head.length) _)
      rw [hregion]
      exact hno
    case ends =>
      show EndsLine (raw.extract (position + line.length + head.length) _)
      rw [hregion]
      exact hends
    case stop =>
      show position + line.length + head.length + (dropLineBreak region).length ≤ _
      omega
    case body =>
      show _ = dropLineBreak (raw.extract (position + line.length + head.length) _)
      rw [hregion, body_closed hat'']
    case lineBreak =>
      show AtMostLineBreak (raw.extract
        (position + line.length + head.length + (dropLineBreak region).length) _)
      rw [hlength, ← Nat.add_assoc, hat''.behind.behind.behind.extract_eq]
      exact hbreak

/-- **A multipart body is partitioned by its parts.** -/
theorem ofBytes_partition (hb : Utf8.replacement ∉ boundary) (raw : Bytes) :
    (∀ m, ofBytes raw boundary = .ok m →
      (∀ p ∈ m.parts, p.Lies raw) ∧ m.parts.Pairwise (fun p q => p.stop ≤ q.start) ∧
        ∃ first ≤ raw.length, NoDelimiter boundary (raw.take first) ∧ EndsLine (raw.take first) ∧
          Covers boundary raw first m.parts m.epilogue) ∧
      ((∃ fault, ofBytes raw boundary = .error (.multipart fault)) ↔ NoDelimiter boundary raw) := by
  refine ⟨?_, ofBytes_eq_noDelimiter_iff hb⟩
  intro m hm
  obtain ⟨preamble, rest, rfl, hno, hends, hsections⟩ := (ofBytes_eq_ok_iff hb).mp hm
  have hat : StandsAt (preamble ++ rest) preamble.length rest := ⟨preamble, rfl, rfl⟩
  have hpreamble : (preamble ++ rest).take preamble.length = preamble := List.take_left
  have hle : preamble.length ≤ (preamble ++ rest).length := by
    rw [List.length_append]
    omega
  refine ⟨?_, hsections.pairwise hat, preamble.length, hle, ?_, ?_, hsections.covers hat⟩
  · intro p hp
    exact (hsections.lies hat p hp).1
  · rw [hpreamble]
    exact hno
  · rw [hpreamble]
    exact hends

/-- A part without headers between a line of preamble and an epilogue, and octets without a
delimiter line. -/
theorem ofBytes_partition_value :
    (∃ p, ofBytes (Utf8.encode "hi\n--b\r\n\r\nvalue\r\n--b--\r\nbye".toList) "b".toList =
        .ok { parts := [p], epilogue := Utf8.encode "bye".toList } ∧
      p.start = 8 ∧ p.content = 10 ∧ p.stop = 15 ∧
        p.Lies (Utf8.encode "hi\n--b\r\n\r\nvalue\r\n--b--\r\nbye".toList) ∧
          ∃ first ≤ 27, Covers "b".toList
            (Utf8.encode "hi\n--b\r\n\r\nvalue\r\n--b--\r\nbye".toList) first [p]
              (Utf8.encode "bye".toList)) ∧
      ∃ fault,
        ofBytes (Utf8.encode "--a\n--bb\n --b".toList) "b".toList = .error (.multipart fault) := by
  have hb : Utf8.replacement ∉ "b".toList := by decide
  have hno (t : String) (h : ((cutLines (Utf8.encode t.toList)).all fun line =>
      (Delimiter.ofLine? "b".toList (Utf8.decodeLossy (dropLineBreak line))).isNone) = true) :
      NoDelimiter "b".toList (Utf8.encode t.toList) := (noDelimiter_iff_all hb).mpr h
  refine ⟨?_, (ofBytes_partition hb _).2.mpr (hno "--a\n--bb\n --b" (by decide))⟩
  have hends (kind : Delimiter) (after : Bytes) :
      FirstLine (Utf8.encode (kind.text "b".toList []) ++ LineEnd.crlf.octets) after :=
    (delimiterLine_ended (by decide) (by decide) (List.forall_mem_nil _) .crlf after).1
  have hline (kind : Delimiter) : DelimiterLine "b".toList kind
      (Utf8.encode (kind.text "b".toList []) ++ LineEnd.crlf.octets) :=
    (delimiterLine_ended (by decide) (by decide) (List.forall_mem_nil _) .crlf []).2
  have hhead : HeadOf {} LineEnd.crlf.octets :=
    headOf_of_blockOf (.done (.intro .crlf nofun List.not_mem_nil))
  have hsections : Sections "b".toList
      (Utf8.encode "hi\n--b\r\n\r\nvalue\r\n--b--\r\nbye".toList) 0 3 _ [_]
      (Utf8.encode "bye".toList) :=
    .part (hends .opening _) (hline .opening) hhead rfl (hno "value\r\n" (by decide))
      (.inr ⟨Utf8.encode "value\r".toList, rfl⟩) (.closed (hends .closing _) (hline .closing))
  have hread : ofBytes _ "b".toList = .ok { parts := [_], epilogue := _ } :=
    (ofBytes_eq_ok_iff hb).mpr ⟨Utf8.encode "hi\n".toList, _, rfl, hno "hi\n" (by decide),
      .inr ⟨Utf8.encode "hi".toList, rfl⟩, hsections⟩
  obtain ⟨hlies, -, first, hle, -, -, hcovers⟩ := (ofBytes_partition hb _).1 _ hread
  exact ⟨_, hread, rfl, rfl, rfl, hlies _ (List.mem_singleton.mpr rfl), first, hle, hcovers⟩

end

end Multipart

end HttpWire
