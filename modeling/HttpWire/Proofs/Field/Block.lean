import HttpWire.Proofs.Field.Line
import HttpWire.Proofs.Message.Line
import HttpWire.Proofs.Reading.Settled

/-!
# Laws of header blocks

A header block is lines in which fields are written, and an empty line (`BlockOf`).  It is read as
its fields in their order, and the answer is the number of its octets (`readBlock_of_blockOf`).  In
ASCII nothing else is read as a block (`blockOf_of_readBlock`).
-/

namespace HttpWire

/-- Octets are those of lines in which fields are written and of an empty line. -/
inductive BlockOf (charset : LineCharset) : List Field → Bytes → Prop
  | done {octets} (hline : LineOf charset [] octets) : BlockOf charset [] octets
  | field {f fs t line rest} (hline : LineOf charset t line) (hf : f.WrittenIn t)
      (hrest : BlockOf charset fs rest) : BlockOf charset (f :: fs) (line ++ rest)

section

variable {f : FlatReader} {fs : List Field} {octets y : Bytes} {h h' : Headers} {n taken : Nat}

/-- **A block is read as its fields**, behind those that were there. -/
theorem readBlock_of_blockOf (hb : BlockOf f.charset fs octets) (hf : f.rest = octets ++ y)
    (taken : Nat) (h : Headers) :
    ∃ last, Headers.readBlock taken h f =
      (.ok (taken + octets.length), ⟨h.fields ++ fs⟩, { f with rest := y, lastTaken := last }) := by
  -- By induction on the lines, with the fields so far in front of theirs.
  generalize hcharset : f.charset = charset at hb
  induction hb generalizing f taken h with
  | @done octets hline =>
    subst hcharset
    refine ⟨octets.length, ?_⟩
    rw [Headers.readBlock_eq, readLine_of_empty hline hf, List.append_nil]
    rfl
  | @field field fs t line rest hline hwritten hrest ih =>
    subst hcharset
    rw [List.append_assoc] at hf
    obtain ⟨u, hu, hread⟩ := readLine_of_lineOf hline hf
    have hwritten' : field.WrittenIn u := by
      rcases hu with rfl | rfl
      · exact hwritten
      · exact hwritten.of_concat_return
    obtain ⟨last, hblock⟩ := ih (f := { f with rest := rest ++ y, lastTaken := line.length })
      rfl (taken + line.length) (h.append field) rfl
    obtain ⟨c, cs, rfl⟩ := List.exists_cons_of_ne_nil hwritten'.ne_nil
    refine ⟨last, ?_⟩
    rw [Headers.readBlock_eq, hread]
    simp only [Field.ofLine_eq_ok_iff.mpr hwritten']
    refine hblock.trans ?_
    rw [Headers.append, List.append_assoc, List.singleton_append, List.length_append,
      Nat.add_assoc]

/-- What is read as a block in ASCII is one. -/
theorem blockOf_of_readBlock {f' : FlatReader} (hascii : f.charset = .ascii)
    (hr : Headers.readBlock taken h f = (.ok n, h', f')) :
    ∃ fs octets, BlockOf .ascii fs octets ∧ f.rest = octets ++ f'.rest ∧
      h' = ⟨h.fields ++ fs⟩ ∧ n = taken + octets.length := by
  fun_induction Headers.readBlock taken h f with
  | case1 => cases hr
  | case2 => cases hr
  | case3 taken h f f₁ hl =>
    cases hr
    rcases lineOf_of_readLine hascii hl with ⟨octets, hline, hrest, hcount⟩ | ⟨-, hne⟩
    · refine ⟨[], octets, .done hline, hrest, ?_, congrArg (taken + ·) hcount⟩
      rw [List.append_nil]
    · exact absurd rfl hne
  | case4 => cases hr
  | case5 taken h f line f₁ hne hl field hfield ih =>
    rcases lineOf_of_readLine hascii hl with ⟨octets, hline, hrest, hcount⟩ | ⟨hend, -⟩
    · have hcharset := FlatReader.charset_readLine f
      rw [hl] at hcharset
      obtain ⟨fs, rest, hblock, hrest', rfl, rfl⟩ := ih (hcharset.trans hascii) hr
      refine ⟨field :: fs, octets ++ rest,
        .field hline (Field.ofLine_eq_ok_iff.mp hfield) hblock, ?_, ?_, ?_⟩
      · rw [hrest, hrest', List.append_assoc]
      · rw [Headers.append, List.append_assoc, List.singleton_append]
      · rw [show ByteReader.lastTaken f₁ = f₁.lastTaken from rfl, hcount, List.length_append,
          Nat.add_assoc]
    -- A line that has used everything up has no empty line behind it.
    · exact absurd (congrArg Prod.fst hr) (Headers.ne_ok_readBlock_of_exhausted hend _ _ _)

end

end HttpWire
