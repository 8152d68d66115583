import HttpWire.Proofs.Headers
import HttpWire.Proofs.Message.Chunked
import HttpWire.Proofs.Request.Decided

/-!
# Trailers come too late

A message with a chunked body is a part in front of its trailers (`Untrailed`) and a block of
trailers.  Everything that decides what the request is stands in front of them: the method, the
target and the version, how the body is framed, and whether trailers are kept at all.  So the
trailers add values behind those of the header block, and nothing else (`Untrailed.receive_eq`).

Two messages that differ in their trailers alone give requests that differ in no more than that, and
in nothing if trailers are not kept (`BufferedReader.receive_trailers`).
-/

namespace HttpWire

/-! ### Chunks without trailers -/

/-- Octets carry a payload in chunks, up to the line with the size zero. -/
inductive ChunksOf (charset : LineCharset) : Bytes → Bytes → Prop
  | last {t line} (hline : LineOf charset t line) (hsize : AnnouncesSize 0 t) :
      ChunksOf charset [] line
  | chunk {t line data empty payload rest} (hline : LineOf charset t line)
      (hsize : AnnouncesSize data.length t) (hne : data ≠ []) (hempty : LineOf charset [] empty)
      (hrest : ChunksOf charset payload rest) :
      ChunksOf charset (data ++ payload) (line ++ (data ++ (empty ++ rest)))

/-- What carries a payload in chunks is chunks and a block of trailers. -/
theorem chunkedCoding_iff {charset : LineCharset} {payload octets : Bytes} {trailers : List Field} :
    ChunkedCoding charset payload trailers octets ↔
      ∃ chunks block, octets = chunks ++ block ∧ ChunksOf charset payload chunks ∧
        BlockOf charset trailers block := by
  constructor
  · intro h
    induction h with
    | last hline hsize hblock => exact ⟨_, _, rfl, .last hline hsize, hblock⟩
    | chunk hline hsize hne hempty _ ih =>
      obtain ⟨chunks, block, rfl, hchunks, hblock⟩ := ih
      exact ⟨_, block, by simp only [List.append_assoc], .chunk hline hsize hne hempty hchunks,
        hblock⟩
  · rintro ⟨chunks, block, rfl, hchunks, hblock⟩
    induction hchunks with
    | last hline hsize => exact .last hline hsize hblock
    | chunk hline hsize hne hempty _ ih =>
      simp only [List.append_assoc]
      exact .chunk hline hsize hne hempty ih

/-! ### Messages without trailers -/

/-- A message with a chunked body, up to its trailers. -/
structure Untrailed (charset : LineCharset) where
  /-- The empty lines in front of the request line. -/
  blanks : List LineEnd
  /-- The octets of the request line in front of its line feed. -/
  line : Bytes
  unbroken : lineFeed ∉ line
  text : Text
  reads : charset.Reads (dropReturn line) (.ok (some text))
  parts : RequestLine
  cut : RequestLine.ofText? text = some parts
  fields : List Field
  block : Bytes
  written : BlockOf charset fields block
  method : Method
  effective : effectiveMethod? parts.method ⟨fields⟩ = some method
  /-- No length wins over the transfer coding. -/
  unannounced : announcedLength ⟨fields⟩ = .ok 0
  listed : Headers.listsToken ⟨fields⟩ .transferEncoding "chunked".toList = true
  payload : Bytes
  chunks : Bytes
  carried : ChunksOf charset payload chunks

namespace Untrailed

variable {charset : LineCharset} (m : Untrailed charset) {f : FlatReader} {block y : Bytes}
  {trailers : List Field} (allowTrailers : Bool)

/-- The octets in front of the trailers. -/
def octets : Bytes :=
  m.blanks.flatMap (fun e => (WireLine.empty e).octets) ++
    (m.line ++ lineFeed :: (m.block ++ m.chunks))

/-- The fields of the header block. -/
def headers : Headers :=
  ⟨m.fields⟩

/-- Whether trailers are kept: they have to be allowed, and the header block has to list them. -/
def keeps (allowTrailers : Bool) : Bool :=
  allowTrailers && m.headers.listsToken .te "trailers".toList

/-- Of the trailers those that are kept. -/
def kept (allowTrailers : Bool) (trailers : List Field) : Headers :=
  if m.keeps allowTrailers then ⟨trailers⟩ else {}

/-- The request that the message is with such trailers. -/
def request (allowTrailers : Bool) (version : Version) (trailers : List Field) : Request :=
  let headers := (m.kept allowTrailers trailers).toList.foldl Headers.append m.headers
  Request.ofTarget m.method m.parts.target m.parts.protocol version headers
    (Body.ofBytes m.payload headers)

/-! ### What is received -/

theorem receiveBody_eq (hcharset : f.charset = charset) (hblock : BlockOf charset trailers block)
    (hf : f.rest = m.chunks ++ (block ++ y)) :
    ∃ f', receiveBody allowTrailers m.headers f =
        (.ok (m.payload, (m.kept allowTrailers trailers).toList.foldl Headers.append m.headers),
          f') ∧ f.Leaves f' y := by
  subst hcharset
  rw [← List.append_assoc] at hf
  obtain ⟨f', hchunked, hleaves⟩ := receiveChunked_of_coding
    (chunkedCoding_iff.mpr ⟨_, _, rfl, m.carried, hblock⟩) hf (m.keeps allowTrailers)
  refine ⟨f', ?_, hleaves⟩
  have hannounced : announcedLength m.headers = .ok 0 := m.unannounced
  have hlisted : m.headers.listsToken .transferEncoding "chunked".toList = true := m.listed
  rw [receiveBody, hannounced]
  simp only [hlisted, if_true]
  rw [show receiveChunked (allowTrailers && _) f = _ from hchunked]
  rfl

/-- Behind its request line the message is received. -/
theorem receiveBehind_eq (version : Version) (hcharset : f.charset = charset)
    (hblock : BlockOf charset trailers block)
    (hf : f.rest = m.block ++ (m.chunks ++ (block ++ y))) :
    ∃ f', receiveBehind allowTrailers m.parts version f =
        (.ok (.request (m.request allowTrailers version trailers)), f') ∧ f.Leaves f' y := by
  subst hcharset
  obtain ⟨last, hread⟩ := readBlock_of_blockOf m.written hf 0 {}
  obtain ⟨f', hbody, hleaves⟩ := m.receiveBody_eq allowTrailers (f := { f with
    rest := m.chunks ++ (block ++ y)
    lastTaken := last }) rfl hblock rfl
  refine ⟨f', ?_, hleaves⟩
  have hread' : Headers.readBlock 0 {} f = (_, m.headers, _) := hread
  have heffective : effectiveMethod? m.parts.method m.headers = some m.method := m.effective
  simp only [receiveBehind, hread', heffective, hbody]
  rfl

/-- **The message is received as the request that it is with its trailers**, and what follows them
is left. -/
theorem receive_eq {υ : Type} [VersionResolver υ] {versions versions' : υ} {version : Version}
    (hversion : VersionResolver.resolve m.parts.protocol versions = (.ok version, versions'))
    (hcharset : f.charset = charset) (hblock : BlockOf charset trailers block)
    (hf : f.rest = m.octets ++ (block ++ y)) :
    ∃ f', receive allowTrailers versions f =
        (.ok (.request (m.request allowTrailers version trailers)), versions', f') ∧
      f.Leaves f' y := by
  subst hcharset
  have hne : m.text ≠ [] := by
    intro h
    have hcut := m.cut
    rw [h] at hcut
    cases hcut
  rw [octets, List.append_assoc, List.append_assoc, List.cons_append, List.append_assoc] at hf
  let behind : FlatReader :=
    { f with rest := m.block ++ (m.chunks ++ (block ++ y)), lastTaken := m.line.length + 1 }
  have hfirst : firstLine f = (.ok (some m.text), behind) := by
    refine WireLine.firstLine_eq_of_blanks m.blanks hne hf fun _ => ?_
    rw [FlatReader.readLine_eq m.unbroken rfl, LineCharset.reads_iff.mp m.reads]
  obtain ⟨f', hbehind, hleaves⟩ := m.receiveBehind_eq allowTrailers version (f := behind) rfl
    hblock rfl
  exact ⟨f', receive_eq_request_iff.mpr ⟨_, _, _, _, hfirst, m.cut, hversion, hbehind⟩, hleaves⟩

/-! ### What trailers change -/

/-- The message with such trailers stands in front of a reader, and other octets behind it. -/
structure Precedes {σ : Type} [ByteSource σ] [StreamSource σ] (m : Untrailed charset)
    (trailers : List Field) (y : Bytes) (r : BufferedReader σ) : Prop where
  neverFails : r.NeverFails
  charset_eq : r.charset = charset
  pending : ∃ block, BlockOf charset trailers block ∧ r.pending = m.octets ++ (block ++ y)

/-- A request has the values of the header block, and behind them those of the trailers that are
kept. -/
structure Appends (m : Untrailed charset) (allowTrailers : Bool) (trailers : List Field)
    (request : Request) : Prop where
  values : ∀ name, request.headers.getAll name =
    m.headers.getAll name ++ (m.kept allowTrailers trailers).getAll name
  first : ∀ name, m.headers.contains name = true →
    request.headers.get? name = m.headers.get? name

theorem headers_request (version : Version) :
    (m.request allowTrailers version trailers).headers =
      (m.kept allowTrailers trailers).toList.foldl Headers.append m.headers :=
  rfl

theorem appends_request (version : Version) :
    m.Appends allowTrailers trailers (m.request allowTrailers version trailers) := by
  have hvalues (name : FieldName) :
      (m.request allowTrailers version trailers).headers.getAll name =
        m.headers.getAll name ++ (m.kept allowTrailers trailers).getAll name := by
    rw [headers_request]
    exact Headers.getAll_foldl_append _ _ name
  exact ⟨hvalues, fun name hname => Headers.get?_of_getAll (hvalues name) hname⟩

end Untrailed

/-- The octets of a body are those that it was made of. -/
theorem Body.raw_ofBytes (raw : Bytes) (h : Headers) : (Body.ofBytes raw h).raw = raw := by
  rw [Body.ofBytes]
  split
  · next hempty => exact (List.isEmpty_iff.mp hempty).symm
  · split
    · rfl
    · split <;> rfl

/-- Two requests agree in everything but their header fields and what these say of the body. -/
structure Request.AgreesButFields (q₁ q₂ : Request) : Prop where
  method : q₁.method = q₂.method
  path : q₁.path = q₂.path
  query : q₁.query = q₂.query
  protocol : q₁.protocol = q₂.protocol
  version : q₁.version = q₂.version
  raw : q₁.body.raw = q₂.body.raw

theorem Untrailed.agreesButFields_request {charset : LineCharset} (m : Untrailed charset)
    (allowTrailers : Bool) (version : Version) (trailers₁ trailers₂ : List Field) :
    (m.request allowTrailers version trailers₁).AgreesButFields
      (m.request allowTrailers version trailers₂) :=
  ⟨rfl, rfl, rfl, rfl, rfl, (Body.raw_ofBytes ..).trans (Body.raw_ofBytes ..).symm⟩

namespace BufferedReader

variable {σ₁ σ₂ : Type} [ByteSource σ₁] [StreamSource σ₁] [ByteSource σ₂] [StreamSource σ₂]
  {r₁ : BufferedReader σ₁} {r₂ : BufferedReader σ₂} {y₁ y₂ : Bytes} {charset : LineCharset}

/-- A message is received from a reader that it stands in front of. -/
theorem receive_untrailed {σ υ : Type} [ByteSource σ] [StreamSource σ] [VersionResolver υ]
    {r : BufferedReader σ} {y : Bytes} {versions versions' : υ} {version : Version}
    {trailers : List Field} (m : Untrailed charset) (allowTrailers : Bool)
    (hversion : VersionResolver.resolve m.parts.protocol versions = (.ok version, versions'))
    (h : m.Precedes trailers y r) :
    ∃ r', receive allowTrailers versions r =
        (.ok (.request (m.request allowTrailers version trailers)), versions', r') ∧
      r'.pending = y := by
  obtain ⟨hr, hcharset, block, hblock, hpending⟩ := h
  obtain ⟨f', hflat, hleaves⟩ := m.receive_eq allowTrailers (f := r.flatten) hversion hcharset
    hblock hpending
  obtain ⟨r', hreceive, -, hf'⟩ := exists_receive_eq hr hflat
  refine ⟨r', hreceive, ?_⟩
  rw [show r'.pending = r'.flatten.rest from rfl, hf']
  exact hleaves.1

/-- **Trailers can only append.**  Two messages that differ in their trailers alone are received as
requests that agree in everything else, each up to the octet behind its message.  In both the values
of the header block come first, whatever the trailers are called, and if trailers are not allowed or
not accepted by the client the requests are the same. -/
theorem receive_trailers {υ : Type} [VersionResolver υ]
    {versions₁ versions₁' versions₂ versions₂' : υ} {version : Version}
    {trailers₁ trailers₂ : List Field} (m : Untrailed charset) (allowTrailers : Bool)
    (h₁ : m.Precedes trailers₁ y₁ r₁) (h₂ : m.Precedes trailers₂ y₂ r₂)
    (hv₁ : VersionResolver.resolve m.parts.protocol versions₁ = (.ok version, versions₁'))
    (hv₂ : VersionResolver.resolve m.parts.protocol versions₂ = (.ok version, versions₂')) :
    ∃ q₁ q₂ r₁' r₂',
      receive allowTrailers versions₁ r₁ = (.ok (.request q₁), versions₁', r₁') ∧
      receive allowTrailers versions₂ r₂ = (.ok (.request q₂), versions₂', r₂') ∧
      r₁'.pending = y₁ ∧ r₂'.pending = y₂ ∧ q₁.AgreesButFields q₂ ∧
      m.Appends allowTrailers trailers₁ q₁ ∧ m.Appends allowTrailers trailers₂ q₂ ∧
      (allowTrailers = false ∨ m.headers.listsToken .te "trailers".toList = false → q₁ = q₂) := by
  obtain ⟨r₁', hreceive₁, hrest₁⟩ := receive_untrailed m allowTrailers hv₁ h₁
  obtain ⟨r₂', hreceive₂, hrest₂⟩ := receive_untrailed m allowTrailers hv₂ h₂
  refine ⟨_, _, r₁', r₂', hreceive₁, hreceive₂, hrest₁, hrest₂,
    m.agreesButFields_request allowTrailers version trailers₁ trailers₂,
    m.appends_request allowTrailers version, m.appends_request allowTrailers version, ?_⟩
  intro hdropped
  have hkeeps : m.keeps allowTrailers = false := by
    rcases hdropped with rfl | hlist
    · rfl
    · rw [Untrailed.keeps, hlist, Bool.and_false]
  rw [Untrailed.request, Untrailed.request, Untrailed.kept, Untrailed.kept, hkeeps]
  rfl

/-- Trailers that repeat a field of the header block and announce a length, and none. -/
theorem receive_trailers_pieces :
    let front := "\nPOST /a?b HTTP/1.1\r\nTE: trailers\r\nTransfer-Encoding: chunked\nA: 1\n\n" ++
      "1\r\nx\r\n0\r\n"
    let r₁ := ofSource (Pieces.mk [Utf8.encode (front ++ "A: 2\nContent-").toList,
      Utf8.encode "Length: 9\n\nGET".toList]) 3 .ascii
    let r₂ := ofSource (Pieces.mk [Utf8.encode (front ++ "\r\n").toList]) 8 .ascii
    let a : FieldName := ⟨"a".toList, by decide⟩
    ∃ q₁ q₂ r₁' r₂',
      receive true TokenParser.mk r₁ = (.ok (.request q₁), TokenParser.mk, r₁') ∧
      receive true TokenParser.mk r₂ = (.ok (.request q₂), TokenParser.mk, r₂') ∧
      r₁'.pending = Utf8.encode "GET".toList ∧ r₂'.pending = [] ∧ q₁.AgreesButFields q₂ ∧
      q₁.headers.getAll a = [⟨[0x31], by decide⟩, ⟨[0x32], by decide⟩] ∧
      q₂.headers.getAll a = [⟨[0x31], by decide⟩] ∧
      q₁.headers.getAll .contentLength = [⟨[0x39], by decide⟩] := by
  intro front r₁ r₂ a
  let te := HeaderLine.spaced .te "TE".toList "trailers".toList .crlf (by decide) (by decide)
    (by decide)
  let coding := HeaderLine.spaced .transferEncoding "Transfer-Encoding".toList "chunked".toList .lf
    (by decide) (by decide) (by decide)
  let one := HeaderLine.spaced a "A".toList "1".toList .lf (by decide) (by decide) (by decide)
  let two := HeaderLine.spaced a "A".toList "2".toList .lf (by decide) (by decide) (by decide)
  let length := HeaderLine.spaced .contentLength "Content-Length".toList "9".toList .lf (by decide)
    (by decide) (by decide)
  have hline (t : String) (ending : LineEnd) (h : Text.IsPlain t.toList) :
      LineOf .ascii t.toList (Utf8.encode t.toList ++ ending.octets) :=
    WireLine.lineOf ⟨t.toList, h, ending⟩ .ascii
  have hone : AnnouncesSize 1 (['1'] ++ [] ++ []) :=
    .intro (by decide) rfl (by decide) (List.forall_mem_nil _) (.inl rfl)
  have hzero : AnnouncesSize 0 (['0'] ++ [] ++ []) :=
    .intro (by decide) rfl (by decide) (List.forall_mem_nil _) (.inl rfl)
  have hchunks : ChunksOf .ascii ([0x78] ++ []) _ :=
    .chunk (hline "1" .crlf (by decide)) hone (by decide) (hline "" .crlf (by decide))
      (.last (hline "0" .crlf (by decide)) hzero)
  let m : Untrailed .ascii :=
    { blanks := [.lf], line := Utf8.encode "POST /a?b HTTP/1.1\r".toList, unbroken := by decide
      text := "POST /a?b HTTP/1.1".toList, reads := LineCharset.reads_iff.mpr (by decide)
      parts := ⟨"POST".toList, "/a?b".toList, "HTTP/1.1".toList⟩, cut := by decide
      fields := [te, coding, one].map HeaderLine.field
      block := _, written := HeaderLine.blockOf .ascii _ .lf
      method := ⟨"POST".toList, by decide⟩, effective := by decide, unannounced := by decide
      listed := by decide, payload := _, chunks := _, carried := hchunks }
  have hoctets : m.octets = Utf8.encode front.toList := by
    dsimp only [Untrailed.octets, m]
    decide
  have hheaders : m.headers = ⟨[te, coding, one].map HeaderLine.field⟩ := rfl
  have hkeeps : m.keeps true = true := by
    rw [Untrailed.keeps, hheaders]
    decide
  have h₁ : m.Precedes ([two, length].map HeaderLine.field) (Utf8.encode "GET".toList) r₁ :=
    ⟨Pieces.neverFails _ 3 .ascii, rfl, _, HeaderLine.blockOf .ascii _ .lf, by rw [hoctets]; decide⟩
  have h₂ : m.Precedes [] [] r₂ :=
    ⟨Pieces.neverFails _ 8 .ascii, rfl, _, HeaderLine.blockOf .ascii [] .crlf,
      by rw [hoctets]; decide⟩
  have hversion : VersionResolver.resolve m.parts.protocol TokenParser.mk =
      (.ok ⟨1, 1⟩, TokenParser.mk) := rfl
  obtain ⟨q₁, q₂, r₁', r₂', hreceive₁, hreceive₂, hrest₁, hrest₂, hagree, happend₁, happend₂, -⟩ :=
    receive_trailers m true h₁ h₂ hversion hversion
  have hvalues₁ := happend₁.values
  have hvalues₂ := happend₂.values
  simp only [Untrailed.kept, hkeeps, hheaders, if_true] at hvalues₁ hvalues₂
  exact ⟨q₁, q₂, r₁', r₂', hreceive₁, hreceive₂, hrest₁, hrest₂, hagree,
    (hvalues₁ a).trans (by decide), (hvalues₂ a).trans (by decide),
    (hvalues₁ .contentLength).trans (by decide)⟩

end BufferedReader

end HttpWire
