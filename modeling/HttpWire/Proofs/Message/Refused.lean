import HttpWire.Proofs.Message.Framing
import HttpWire.Proofs.Request.Refused

/-!
# Messages on the wire that are refused

What a reader makes of a line that is no request line, and of a message whose method is none, where
they stand in front of other octets.  The first leaves what is behind the line
(`WireLine.receive_eq_malformedLine`), the second what is behind the header block
(`WireLine.receive_eq_badMethod`).
-/

namespace HttpWire.WireLine

variable {υ : Type} [VersionResolver υ] (l : WireLine) {lines : List HeaderLine} {ending : LineEnd}
  {allowTrailers : Bool} {versions : υ} {f : FlatReader} {y : Bytes}

/-- The first line behind empty lines is where a request may begin. -/
theorem fromFirstLine_eq_of_empty (blanks : List LineEnd) (hl : l.text ≠ [])
    (hf : f.rest = blanks.flatMap (fun e => (empty e).octets) ++ (l.octets ++ y)) :
    f.fromFirstLine = l.octets ++ y := by
  -- As `firstLine` passes over them.
  induction blanks generalizing f with
  | nil =>
    rw [FlatReader.fromFirstLine_eq, l.readLine_eq hf]
    obtain ⟨c, cs, ht⟩ := List.exists_cons_of_ne_nil hl
    rw [ht]
    exact hf
  | cons e blanks ih =>
    rw [List.flatMap_cons, List.append_assoc] at hf
    rw [FlatReader.fromFirstLine_eq, (empty e).readLine_eq hf]
    exact ih rfl

theorem text_ne_nil_of_ofText? {line : RequestLine} (h : RequestLine.ofText? l.text = some line) :
    l.text ≠ [] := by
  intro hnil
  rw [hnil] at h
  cases h

/-! ### What is refused -/

/-- A line that is no request line is refused, and what follows it is left. -/
theorem receive_eq_malformedLine (allowTrailers : Bool) (versions : υ) (hne : l.text ≠ [])
    (hl : RequestLine.ofText? l.text = none) (hf : f.rest = l.octets ++ y) :
    ∃ f', receive allowTrailers versions f = (.ok (.nothing .malformedLine), versions, f') ∧
      f'.rest = y := by
  have hline := l.firstLine_eq_of_empty [] hne hf
  refine ⟨{ f with rest := y, lastTaken := l.octets.length }, ?_, rfl⟩
  rw [receive, hline]
  simp only [hl]

/-- The line and the header block behind it are read. -/
theorem exists_readBlock_eq (hne : l.text ≠ [])
    (hf : f.rest = l.octets ++ (HeaderLine.blockOctets lines ending ++ y)) :
    ∃ f₁ n f₂, firstLine f = (.ok (some l.text), f₁) ∧
      f₁.rest = HeaderLine.blockOctets lines ending ++ y ∧
      Headers.readBlock 0 {} f₁ = (.ok n, HeaderLine.headers lines, f₂) ∧ f₂.rest = y := by
  have hline := l.firstLine_eq_of_empty [] hne hf
  have hblock : ∃ n last, Headers.readBlock 0 {} { f with
      rest := HeaderLine.blockOctets lines ending ++ y
      lastTaken := l.octets.length } =
        (.ok n, HeaderLine.headers lines, { f with rest := y, lastTaken := last }) :=
    HeaderLine.readBlock_eq 0 {} rfl
  obtain ⟨n, last, hblock⟩ := hblock
  exact ⟨_, n, _, hline, rfl, hblock, rfl⟩

/-- A message whose method is none is refused behind its header block. -/
theorem receive_eq_badMethod (allowTrailers : Bool) (line : RequestLine)
    (lines : List HeaderLine) (ending : LineEnd) {version : Version}
    (hl : RequestLine.ofText? l.text = some line)
    (hversion : (VersionResolver.resolve line.protocol versions).1 = .ok version)
    (hmethod : effectiveMethod? line.method (HeaderLine.headers lines) = none)
    (hf : f.rest = l.octets ++ (HeaderLine.blockOctets lines ending ++ y)) :
    ∃ f', receive allowTrailers versions f = (.ok (.nothing .badMethod),
      (VersionResolver.resolve line.protocol versions).2, f') ∧ f'.rest = y := by
  obtain ⟨f₁, n, f₂, hline, -, hblock, hrest⟩ :=
    l.exists_readBlock_eq (l.text_ne_nil_of_ofText? hl) hf
  have hresolve : VersionResolver.resolve line.protocol versions =
      (.ok version, (VersionResolver.resolve line.protocol versions).2) := Prod.ext hversion rfl
  refine ⟨f₂, ?_, hrest⟩
  rw [receive, hline]
  simp only [hl]
  rw [hresolve]
  simp only [receiveBehind, hblock, hmethod]

/-- A refused message is complete if its body is all there. -/
theorem refuses {n : Nat} {why : Absence} (hne : l.text ≠ []) (hlength : Announces lines n)
    (hn : n ≤ y.length) (hf : f.rest = l.octets ++ (HeaderLine.blockOctets lines ending ++ y))
    (hr : (receive allowTrailers versions f).1 = .ok (.nothing why)) :
    Refuses allowTrailers versions f why (HeaderLine.headers lines)
      (HeaderLine.blockOctets lines ending ++ y) y (y.drop n) where
  block := by
    obtain ⟨f₁, k, f₂, hline, hrest₁, hblock, hrest₂⟩ := l.exists_readBlock_eq hne hf
    exact ⟨l.text, f₁, k, f₂, hline, hrest₁, hblock, hrest₂⟩
  body := ⟨n, announcedLength_eq hlength, hn, rfl⟩
  refused := hr

end HttpWire.WireLine
