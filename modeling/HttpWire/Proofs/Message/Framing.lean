import HttpWire.Proofs.Message.Meaning
import HttpWire.Proofs.Request.Decided
import HttpWire.Proofs.Request.Line

/-!
# Messages are framed by themselves

A message that is sent is received as the request that it is, and the octets behind it are left
(`Message.receive_eq`).  So messages in a row are received one after the other, however the octets
are cut into pieces, and what follows the last of them is not touched
(`BufferedReader.receiveEach_messages`).

Each part of a message is read where it stands; the only thing that one part tells the next is the
header block, which says where the body ends.
-/

namespace HttpWire

open FaithfulResolver (Faithful)

/-! ### What the header block announces -/

theorem Text.trim_eq_self {t : Text} (h : ∀ c ∈ t, isBlank c = false) : trim t = t := by
  cases t with
  | nil => rfl
  | cons c t =>
    rw [trim, List.dropWhile_cons_of_neg (by simp [h c (List.mem_cons_self ..)])]
    obtain ⟨front, last, hlast⟩ : ∃ front last, c :: t = front ++ [last] :=
      ⟨_, _, (List.dropLast_concat_getLast (List.cons_ne_nil c t)).symm⟩
    rw [hlast]
    exact dropTrailing_eq_self (h last (by simp [hlast])) front

theorem lengthOfText?_of_digits {t : Text} {n : Nat} (h : Text.toNat? t = some n)
    (hn : n < UInt64.size) : lengthOfText? t = some n := by
  have hdigits := Text.isDigit_of_toNat? h
  have hplus : ∀ rest, t ≠ '+' :: rest := by
    rintro rest rfl
    exact absurd (hdigits.2 '+' (List.mem_cons_self ..)) (by decide)
  simp only [lengthOfText?, h]
  rw [if_pos hn]

theorem announcedLength_eq {lines : List HeaderLine} {n : Nat} (h : Announces lines n) :
    announcedLength (HeaderLine.headers lines) = .ok n := by
  rw [Announces] at h
  cases ht : HeaderLine.first? .contentLength lines with
  | none =>
    rw [ht] at h
    rw [announcedLength, HeaderLine.get?_eq_none ht, h]
  | some t =>
    rw [ht] at h
    obtain ⟨v, hv, hsaid, -⟩ := HeaderLine.exists_get?_eq ht
    have hblank : ∀ c ∈ t, Text.isBlank c = false := by
      intro c hc
      have hc' := h.1.isDigit c hc
      rw [Text.isDigit_iff] at hc'
      simp only [Text.isBlank, Bool.or_eq_false_iff, Bool.and_eq_false_iff, decide_eq_false_iff_not,
        beq_eq_false_iff_ne]
      omega
    rw [announcedLength, hv]
    simp only [FieldValue.text?_eq_some_iff.mpr hsaid, Option.map_some, Text.trim_eq_self hblank,
      Option.bind_some, lengthOfText?_of_digits (Text.toNat?_eq_some_iff.mpr h.1) h.2]

namespace Message

variable (m : Message) {f : FlatReader} {y : Bytes}

theorem effectiveMethod_of_none (h : HeaderLine.first? .methodOverride m.lines = none) :
    m.effectiveMethod = m.method := by
  rw [effectiveMethod]
  split
  · rfl
  · next ht => rw [h] at ht; cases ht

theorem effectiveMethod_of_some {t : Text}
    (h : HeaderLine.first? .methodOverride m.lines = some t) :
    m.effectiveMethod = ⟨Text.upper t, isToken_upper (m.override t h)⟩ := by
  rw [effectiveMethod]
  split
  · next ht => rw [h] at ht; cases ht
  · next ht =>
    obtain rfl := Option.some.inj (h.symm.trans ht)
    rfl

theorem effectiveMethod?_eq :
    effectiveMethod? m.method.text (HeaderLine.headers m.lines) = some m.effectiveMethod := by
  rw [effectiveMethod?]
  cases ht : HeaderLine.first? .methodOverride m.lines with
  | none =>
    rw [HeaderLine.get?_eq_none ht, m.effectiveMethod_of_none ht]
    exact dif_pos m.method.valid
  | some t =>
    obtain ⟨v, hv, -, htext⟩ := HeaderLine.exists_get?_eq ht
    rw [hv, m.effectiveMethod_of_some ht]
    simp only [htext]
    exact dif_pos (isToken_upper (m.override t ht))

/-! ### The request line -/

/-- The method ends at the first space and the protocol token begins behind the last. -/
theorem ofText?_lineText :
    RequestLine.ofText? m.lineText = some ⟨m.method.text, m.target, m.protocol⟩ := by
  refine RequestLine.ofText?_eq_some_iff.mpr ⟨m.target, rfl, ?_, ?_, m.target_trimmed.symm⟩
  · intro hmem
    exact (m.isVisible_method hmem).2.2.2 rfl
  · intro hmem
    exact (m.isVisible_protocol hmem).2.2.2 rfl

/-! ### The body -/

theorem headers_eq_of_trailers (allowTrailers : Bool) (h : m.trailers = []) :
    m.headers allowTrailers = HeaderLine.headers m.lines := by
  rw [headers, h]
  exact ite_self _

theorem receiveBody_eq (allowTrailers : Bool) (hf : f.rest = m.contentOctets ++ y) :
    ∃ f', receiveBody allowTrailers (HeaderLine.headers m.lines) f =
        (.ok (m.payload, m.headers allowTrailers), f') ∧ f.Leaves f' y := by
  rw [contentOctets] at hf
  -- The reader decides between the three framings by the same two facts as the sender.
  cases hcontent : m.content with
  | octets body hne hlength =>
    have hpayload : m.payload = body := by rw [payload, hcontent]
    have hheaders := m.headers_eq_of_trailers allowTrailers (by rw [trailers, hcontent])
    rw [hcontent] at hf
    obtain ⟨n, hn⟩ : ∃ n, body.length = n + 1 :=
      Nat.exists_eq_succ_of_ne_zero fun h => hne (List.length_eq_zero_iff.mp h)
    have hread := FlatReader.readExact_eq hf
    rw [hn] at hread
    refine ⟨{ f with rest := y, lastTaken := n + 1 }, ?_, rfl, rfl⟩
    rw [receiveBody, announcedLength_eq hlength, hn]
    simp only [hread, hpayload, hheaders]
  | chunked carried sent octets hcoding hlength hlisted =>
    have hpayload : m.payload = carried := by rw [payload, hcontent]
    have htrailers : m.trailers = sent := by rw [trailers, hcontent]
    have hkeeps : (allowTrailers && (HeaderLine.headers m.lines).listsToken .te
        "trailers".toList) = decide (m.KeepsTrailers allowTrailers) := by
      rw [Bool.eq_iff_iff, decide_eq_true_eq, Bool.and_eq_true, Headers.listsToken_iff,
        KeepsTrailers]
    rw [hcontent] at hf
    obtain ⟨f', hread, hleaves⟩ := receiveChunked_of_coding hcoding.of_ascii hf
      (decide (m.KeepsTrailers allowTrailers))
    refine ⟨f', ?_, hleaves⟩
    rw [receiveBody, announcedLength_eq hlength]
    simp only [Headers.listsToken_iff.mpr hlisted, if_true]
    rw [hkeeps, hread, headers, hpayload, htrailers]
    by_cases hkept : m.KeepsTrailers allowTrailers <;> simp only [hkept] <;> rfl
  | nothing hlength hunlisted =>
    have hpayload : m.payload = [] := by rw [payload, hcontent]
    have hheaders := m.headers_eq_of_trailers allowTrailers (by rw [trailers, hcontent])
    rw [hcontent] at hf
    refine ⟨f, ?_, hf, rfl⟩
    rw [receiveBody, announcedLength_eq hlength]
    simp only [Headers.listsToken_eq_false_iff.mpr hunlisted, Bool.false_eq_true, if_false,
      hpayload, hheaders]

/-! ### The message -/

/-- Behind a request line the header block and the body make the request, if the method of the line
or what overrides it is that of the message. -/
theorem receiveBehind_eq (allowTrailers : Bool) (line : RequestLine)
    (hmethod : effectiveMethod? line.method (HeaderLine.headers m.lines) = some m.effectiveMethod)
    (htarget : line.target = m.target) (hprotocol : line.protocol = m.protocol)
    (hf : f.rest = HeaderLine.blockOctets m.lines m.blockEnding ++ (m.contentOctets ++ y)) :
    ∃ f', receiveBehind allowTrailers line m.version f =
        (.ok (.request (m.request allowTrailers)), f') ∧ f.Leaves f' y := by
  obtain ⟨length, i, hblock⟩ := HeaderLine.readBlock_eq 0 {} hf
  obtain ⟨f', hbody, hleaves⟩ := m.receiveBody_eq allowTrailers (y := y) (f := { f with
    rest := m.contentOctets ++ y
    lastTaken := i }) rfl
  refine ⟨f', ?_, hleaves⟩
  have hblock' : Headers.readBlock 0 {} f = (.ok length, HeaderLine.headers m.lines, _) := hblock
  simp only [receiveBehind, hblock', hmethod, hbody, htarget, hprotocol]
  rfl

/-- A request line in front of the block and the body of a message gives the request of the
message, if it gives the same method, target and protocol token. -/
theorem receive_eq_of_line {υ : Type} [VersionResolver υ] [FaithfulResolver υ]
    (allowTrailers : Bool) {versions : υ} (blanks : List LineEnd) (l : WireLine)
    (line : RequestLine) (hv : Faithful versions) (hline : RequestLine.ofText? l.text = some line)
    (hmethod : effectiveMethod? line.method (HeaderLine.headers m.lines) = some m.effectiveMethod)
    (htarget : line.target = m.target) (hprotocol : line.protocol = m.protocol)
    (hf : f.rest = blanks.flatMap (fun e => (WireLine.empty e).octets) ++
      (l.octets ++ (HeaderLine.blockOctets m.lines m.blockEnding ++ (m.contentOctets ++ y)))) :
    ∃ f', receive allowTrailers versions f =
        (.ok (.request (m.request allowTrailers)),
          (VersionResolver.resolve m.protocol versions).2, f') ∧ f.Leaves f' y := by
  have hne : l.text ≠ [] := by
    intro h
    rw [h] at hline
    cases hline
  have hfirst := l.firstLine_eq_of_empty blanks hne hf
  obtain ⟨f', hbehind, hleaves⟩ := m.receiveBehind_eq allowTrailers line (y := y) (f := { f with
      rest := HeaderLine.blockOctets m.lines m.blockEnding ++ (m.contentOctets ++ y)
      lastTaken := l.octets.length }) hmethod htarget hprotocol rfl
  have hversion : (VersionResolver.resolve line.protocol versions).1 = .ok m.version := by
    rw [hprotocol]
    exact (FaithfulResolver.resolve_eq_ok_iff hv).mpr m.accepted
  refine ⟨f', receive_eq_request_iff.mpr ⟨l.text, line, m.version, _, hfirst, hline, ?_, hbehind⟩,
    hleaves⟩
  rw [← hprotocol]
  exact Prod.ext hversion rfl

/-- **A message is received as the request that it is**, and what follows it is left. -/
theorem receive_eq {υ : Type} [VersionResolver υ] [FaithfulResolver υ] (allowTrailers : Bool)
    {versions : υ} (hv : Faithful versions) (hf : f.rest = m.octets ++ y) :
    ∃ f', receive allowTrailers versions f =
        (.ok (.request (m.request allowTrailers)),
          (VersionResolver.resolve m.protocol versions).2, f') ∧ f.Leaves f' y := by
  rw [octets, List.append_assoc, List.append_assoc, List.append_assoc] at hf
  exact m.receive_eq_of_line allowTrailers m.blanks m.line ⟨m.method.text, m.target, m.protocol⟩ hv
    m.ofText?_lineText m.effectiveMethod?_eq rfl rfl hf

end Message

/-! ### Messages in a row -/

/-- Receives so many requests one after the other. -/
def receiveEach {υ ρ : Type} [VersionResolver υ] [ByteReader ρ] (allowTrailers : Bool) :
    Nat → υ → ρ → List (Except (Stop ReceiveError) Received) × υ × ρ
  | 0, versions, r => ([], versions, r)
  | n + 1, versions, r =>
    let (answer, versions, r) := receive allowTrailers versions r
    let (answers, versions, r) := receiveEach allowTrailers n versions r
    (answer :: answers, versions, r)

namespace BufferedReader

variable {υ σ : Type} [VersionResolver υ] [FaithfulResolver υ] [ByteSource σ] [StreamSource σ]
  {versions : υ} {r : BufferedReader σ} {y : Bytes}

/-- A message in front of other octets is received, and the others are left. -/
theorem receive_message (m : Message) (allowTrailers : Bool) (hv : Faithful versions)
    (hr : r.NeverFails) (hpending : r.pending = m.octets ++ y) :
    ∃ versions' r', receive allowTrailers versions r =
        (.ok (.request (m.request allowTrailers)), versions', r') ∧
      Faithful versions' ∧ r'.NeverFails ∧ r'.pending = y := by
  obtain ⟨f', hflat, hleaves⟩ := m.receive_eq allowTrailers hv (f := r.flatten) hpending
  obtain ⟨r', hreceive, hr', hf'⟩ := exists_receive_eq hr hflat
  refine ⟨_, r', hreceive, FaithfulResolver.faithful_resolve _ hv, hr', ?_⟩
  rw [show r'.pending = r'.flatten.rest from rfl, hf']
  exact hleaves.1

/-- **Messages in a row are received one after the other**, in their order, as the requests that they
mean, whatever pieces their octets come in, and the octets behind the last of them are left. -/
theorem receiveEach_messages (messages : List Message) (allowTrailers : Bool)
    (hv : Faithful versions) (hr : r.NeverFails)
    (hpending : r.pending = messages.flatMap Message.octets ++ y) :
    ∃ requests, List.Forall₂ (Message.Means · allowTrailers) messages requests ∧
      (receiveEach allowTrailers messages.length versions r).1 =
        requests.map (fun q => .ok (.request q)) ∧
      (receiveEach allowTrailers messages.length versions r).2.2.pending = y := by
  induction messages generalizing versions r with
  | nil => exact ⟨[], .nil, rfl, hpending⟩
  | cons m messages ih =>
    rw [List.flatMap_cons, List.append_assoc] at hpending
    -- The first message is received, and the others stand behind it.
    obtain ⟨versions', r', hreceive, hv', hr', hpending'⟩ :=
      receive_message m allowTrailers hv hr hpending
    obtain ⟨requests, hmeans, hanswers, hrest⟩ := ih hv' hr' hpending'
    refine ⟨m.request allowTrailers :: requests, .cons (Message.means_iff.mpr rfl) hmeans, ?_⟩
    simp only [List.length_cons, receiveEach, hreceive, List.map_cons, hanswers, hrest]
    exact ⟨trivial, trivial⟩

/-- A form with a length, whose method is overridden, then a body in chunks whose trailers are kept,
then a multipart body, with other octets behind it, in three pieces. -/
theorem receiveEach_messages_bodies :
    let pieces :=
      [Utf8.encode ("\nPOST /a%20b?c=%41+&d HTTP/1.1\r\nContent-Length: 2\n".toList ++
          "_method: put\r\n\r\nhiP".toList),
        Utf8.encode ("OST / HTTP/1.0\nTE: x, Trailers\nTransfer-Encoding: chunked\n\n".toList ++
          "1;x\r\n".toList),
        Utf8.encode ("a\r\n2\nbc\n0\r\nTE: y\r\n\r\nPUT *?? http/2\n".toList ++
          "Content-Type: multipart/mixed; Boundary=z\nContent-Length: 5\n\n--z--GET".toList)]
    let r := ofSource (Client.sending pieces) 4
    (receiveEach true 3 TokenParser.mk r).1 =
        [.ok (.request
          { method := ⟨"PUT".toList, by decide⟩, path := "/a%20b".toList
            query := ⟨[("c".toList, "A ".toList), ("d".toList, [])]⟩
            headers := ⟨[⟨.contentLength, .ofVisible "2".toList (by decide)⟩,
              ⟨.methodOverride, .ofVisible "put".toList (by decide)⟩]⟩
            protocol := "HTTP/1.1".toList, version := ⟨1, 1⟩
            body := .form (Utf8.encode "hi".toList) }),
          .ok (.request
          { method := ⟨"POST".toList, by decide⟩, path := "/".toList, query := {}
            headers := ⟨[⟨.te, .ofVisible "x, Trailers".toList (by decide)⟩,
              ⟨.transferEncoding, .ofVisible "chunked".toList (by decide)⟩,
              ⟨.te, .ofVisible "y".toList (by decide)⟩]⟩
            protocol := "HTTP/1.0".toList, version := ⟨1, 0⟩
            body := .form (Utf8.encode "abc".toList) }),
          .ok (.request
          { method := ⟨"PUT".toList, by decide⟩, path := "*".toList, query := ⟨[("?".toList, [])]⟩
            headers :=
              ⟨[⟨.contentType, .ofVisible "multipart/mixed; Boundary=z".toList (by decide)⟩,
                ⟨.contentLength, .ofVisible "5".toList (by decide)⟩]⟩
            protocol := "http/2".toList, version := ⟨2, 0⟩
            body := .multipart (Utf8.encode "--z--".toList) "z".toList })] ∧
      (receiveEach true 3 TokenParser.mk r).2.2.pending = Utf8.encode "GET".toList := by
  intro pieces r
  let m₁ : Message :=
    { blanks := [.lf], method := ⟨"POST".toList, by decide⟩
      target := "/a%20b?c=%41+&d".toList, target_plain := by decide, target_trimmed := by decide
      protocol := "HTTP/1.1".toList, version := ⟨1, 1⟩, accepted := rfl
      ending := .crlf, blockEnding := .crlf
      lines := [.spaced .contentLength "Content-Length".toList "2".toList .lf (by decide)
          (by decide) (by decide),
        .spaced .methodOverride "_method".toList "put".toList .crlf (by decide) (by decide)
          (by decide)]
      override := by decide
      content := .octets (Utf8.encode "hi".toList) (by decide)
        ⟨Text.toNat?_eq_some_iff.mp (by decide), by decide⟩ }
  let m₂ : Message :=
    { blanks := [], method := ⟨"POST".toList, by decide⟩
      target := "/".toList, target_plain := by decide, target_trimmed := by decide
      protocol := "HTTP/1.0".toList, version := ⟨1, 0⟩, accepted := rfl
      ending := .lf, blockEnding := .lf
      lines := [.spaced .te "TE".toList "x, Trailers".toList .lf (by decide) (by decide)
          (by decide),
        .spaced .transferEncoding "Transfer-Encoding".toList "chunked".toList .lf (by decide)
          (by decide) (by decide)]
      override := by decide
      content := .chunked _ _ _ chunkedCoding_abc rfl (by decide) }
  let m₃ : Message :=
    { blanks := [], method := ⟨"PUT".toList, by decide⟩
      target := "*??".toList, target_plain := by decide, target_trimmed := by decide
      protocol := "http/2".toList, version := ⟨2, 0⟩, accepted := rfl
      ending := .lf, blockEnding := .lf
      lines := [.spaced .contentType "Content-Type".toList "multipart/mixed; Boundary=z".toList .lf
          (by decide) (by decide) (by decide),
        .spaced .contentLength "Content-Length".toList "5".toList .lf (by decide) (by decide)
          (by decide)]
      override := by decide
      content := .octets (Utf8.encode "--z--".toList) (by decide)
        ⟨Text.toNat?_eq_some_iff.mp (by decide), by decide⟩ }
  have hpending : r.pending =
      [m₁, m₂, m₃].flatMap Message.octets ++ Utf8.encode "GET".toList :=
    (congrArg FlatReader.rest (Client.flatten_sending pieces 4 .ascii)).trans (by decide +kernel)
  obtain ⟨requests, hmeans, hanswers, hrest⟩ := receiveEach_messages [m₁, m₂, m₃] true
    (show Faithful TokenParser.mk from trivial) (Client.neverFails_sending _ 4 .ascii) hpending
  refine ⟨hanswers.trans ?_, hrest⟩
  rw [Message.forall₂_means_iff.mp hmeans]
  decide +kernel

end BufferedReader

end HttpWire
