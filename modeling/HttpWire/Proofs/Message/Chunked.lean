import HttpWire.Proofs.Body.Chunked
import HttpWire.Proofs.Message.Header
import HttpWire.Request.Receive

/-!
# Chunked bodies on the wire

What carries a payload in chunks is received as that payload, up to the octet behind its last line
(`receiveChunked_of_coding`).

A sender that keeps to ASCII in the lines between the chunks need not know in which characters the
reader reads lines (`ChunkedCoding.of_ascii`).
-/

namespace HttpWire

variable {charset : LineCharset}

/-! ### ASCII -/

theorem LineOf.of_ascii {t : Text} {octets : Bytes} (h : LineOf .ascii t octets) :
    LineOf charset t octets := by
  obtain ⟨ending, hadmits, hno⟩ := h
  exact .intro ending (fun _ => hadmits rfl) hno

theorem BlockOf.of_ascii {fs : List Field} {octets : Bytes} (h : BlockOf .ascii fs octets) :
    BlockOf charset fs octets := by
  induction h with
  | done hline => exact .done hline.of_ascii
  | field hline hf _ ih => exact .field hline.of_ascii hf ih

/-- Octets that carry a payload with lines of ASCII carry it for every reader. -/
theorem ChunkedCoding.of_ascii {payload octets : Bytes} {trailers : List Field}
    (h : ChunkedCoding .ascii payload trailers octets) :
    ChunkedCoding charset payload trailers octets := by
  induction h with
  | last hline hsize hblock => exact .last hline.of_ascii hsize hblock.of_ascii
  | chunk hline hsize hne hempty _ ih =>
    exact .chunk hline.of_ascii hsize hne hempty.of_ascii ih

/-- Three octets in two chunks, of which the first has an extension, with a trailer behind them. -/
theorem chunkedCoding_abc :
    ChunkedCoding .ascii (Utf8.encode "abc".toList) [⟨.te, .ofVisible "y".toList (by decide)⟩]
      (Utf8.encode "1;x\r\na\r\n2\nbc\n0\r\nTE: y\r\n\r\n".toList) := by
  have hline (t : String) (ending : LineEnd) (h : Text.IsPlain t.toList) :
      LineOf .ascii t.toList (Utf8.encode t.toList ++ ending.octets) :=
    WireLine.lineOf ⟨t.toList, h, ending⟩ .ascii
  let trailer : HeaderLine := .spaced .te "TE".toList "y".toList .crlf (by decide) (by decide)
    (by decide)
  have hone : AnnouncesSize (List.length ([0x61] : Bytes)) (['1'] ++ [] ++ [';', 'x']) :=
    .intro (by decide) rfl (by decide) (List.forall_mem_nil _) (.inr ⟨_, rfl⟩)
  have htwo : AnnouncesSize (List.length ([0x62, 0x63] : Bytes)) (['2'] ++ [] ++ []) :=
    .intro (by decide) rfl (by decide) (List.forall_mem_nil _) (.inl rfl)
  have hlast : AnnouncesSize 0 (['0'] ++ [] ++ []) :=
    .intro (by decide) rfl (by decide) (List.forall_mem_nil _) (.inl rfl)
  obtain ⟨payload, coded, rfl, rfl, hcoding⟩ : ∃ payload coded,
      payload = Utf8.encode "abc".toList ∧
        coded = Utf8.encode "1;x\r\na\r\n2\nbc\n0\r\nTE: y\r\n\r\n".toList ∧
          ChunkedCoding .ascii payload [trailer.field] coded :=
    ⟨[0x61] ++ ([0x62, 0x63] ++ []), _, by decide, by decide,
      .chunk (hline "1;x" .crlf (by decide)) hone (by decide) (hline "" .crlf (by decide))
        (.chunk (hline "2" .lf (by decide)) htwo (by decide) (hline "" .lf (by decide))
          (.last (hline "0" .crlf (by decide)) hlast
            (HeaderLine.blockOf .ascii [trailer] .crlf)))⟩
  exact hcoding

/-! ### Receiving -/

/-- Of two states of a reader the second is the first with only `y` left to read. -/
def FlatReader.Leaves (f f' : FlatReader) (y : Bytes) : Prop :=
  f'.rest = y ∧ f'.charset = f.charset

/-- What carries a payload is received as that, with its trailers if they are kept, up to the octet
behind it. -/
theorem receiveChunked_of_coding {f : FlatReader} {payload octets y : Bytes} {trailers : List Field}
    (hcoding : ChunkedCoding f.charset payload trailers octets) (hf : f.rest = octets ++ y)
    (keep : Bool) :
    ∃ f', receiveChunked keep f = (.ok (payload, if keep then ⟨trailers⟩ else {}), f') ∧
      f.Leaves f' y := by
  obtain ⟨last, h⟩ := ChunkedReader.takeToEnd_of_coding
    (c := { inner := f, keepTrailers := keep, lastTaken := 0 }) hcoding rfl hf []
  refine ⟨{ f with rest := y, lastTaken := last }, ?_, rfl, rfl⟩
  simp only [receiveChunked, ChunkedReader.readToEnd]
  rw [h]
  rfl

end HttpWire
