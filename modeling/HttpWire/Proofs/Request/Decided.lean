import HttpWire.Proofs.Message.Header
import HttpWire.Proofs.Reading.Flatten
import HttpWire.Proofs.Reading.Settled
import HttpWire.Proofs.Version.Faithful
import HttpWire.Proofs.Wire.Steady

/-!
# A request is decided by its octets

A request that has been received is settled: the octets that were taken for it decide that it is
received, which request it is, and where the next message begins.

The end of the input never helps.  A request line may end at the end of the input instead of a line
feed, but then the header block is missing; every later step that gives a part of a request is
settled by itself (`Proofs.Reading.Settled`).  That a part of those octets is not enough follows:
were a request received from it, the same octets would be received as that request in the longer
string, and less would be taken for it there.
-/

namespace HttpWire

open OnOctets (withRest)
open FaithfulResolver (Faithful)

/-! ### Parts of a request -/

/-- A request line is settled, or nothing is left behind it. -/
theorem settles_firstLine_or_exhausted {r r' : FlatReader} {line : Text}
    (h : firstLine r = (.ok (some line), r')) :
    Settles firstLine r (.ok (some line)) r' ∨ r'.rest = [] := by
  fun_induction firstLine r with
  | case1 r r₁ hl ih =>
    rcases FlatReader.settles_or_exhausted hl with hs | ⟨-, hne⟩
    · rcases ih h with hs' | hend
      · refine .inl (hs.trans hs' ?_)
        intro z y hz
        rw [firstLine_eq, hz]
      · exact .inr hend
    · exact absurd rfl hne
  | case2 r hne =>
    rcases FlatReader.settles_or_exhausted h with hs | ⟨hend, -⟩
    · refine .inl (hs.answer rfl ?_)
      intro z y hz
      rw [firstLine_eq, hz]
      cases line with
      | nil => exact absurd h (hne r')
      | cons c cs => rfl
    · exact .inr hend

theorem settles_receiveChunked {keep : Bool} {r r' : FlatReader} {x : Bytes × Headers}
    (h : receiveChunked keep r = (.ok x, r')) : Settles (receiveChunked keep) r (.ok x) r' := by
  simp only [receiveChunked, ChunkedReader.readToEnd] at h
  rcases hc : ChunkedReader.takeToEnd [] { inner := r, keepTrailers := keep } with ⟨e | payload, c⟩
  · rw [hc] at h
    simp at h
  · rw [hc] at h
    cases h
    obtain ⟨taken, hrest, hf⟩ := ChunkedReader.settles_takeToEnd hc
    refine ⟨taken, hrest, ?_⟩
    intro y
    have hf' : ChunkedReader.takeToEnd []
        { inner := withRest (taken ++ y) r, keepTrailers := keep } = _ := hf y
    simp only [receiveChunked, ChunkedReader.readToEnd, hf']
    rfl

theorem settles_receiveBody {allowTrailers : Bool} {headers : Headers} {r r' : FlatReader}
    {x : Bytes × Headers} (h : receiveBody allowTrailers headers r = (.ok x, r')) :
    Settles (receiveBody allowTrailers headers) r (.ok x) r' := by
  rw [receiveBody] at h
  cases hn : announcedLength headers with
  | error e =>
    rw [hn] at h
    cases h
  | ok n =>
    rw [hn] at h
    -- A length, chunks or no body: each is settled by the operation that reads it.
    cases n with
    | succ n =>
      rcases hr : ByteReader.readExact (n + 1) r with ⟨e | raw, r₁⟩
      · simp [hr] at h
      · simp only [hr] at h
        cases h
        refine (FlatReader.settles_readExact hr).answer rfl ?_
        intro z y hz
        simp only [receiveBody, hn, hz]
    | zero =>
      by_cases hc : headers.listsToken .transferEncoding "chunked".toList = true
      · simp only [if_pos hc] at h
        rcases hr : receiveChunked
          (allowTrailers && headers.listsToken .te "trailers".toList) r with
          ⟨e | ⟨payload, trailers⟩, r₁⟩
        · simp only [hr] at h
          cases h
        · simp only [hr] at h
          cases h
          refine (settles_receiveChunked hr).answer rfl ?_
          intro z y hz
          simp only [receiveBody, hn, if_pos hc, hz]
      · simp only [if_neg hc] at h
        cases h
        refine ⟨[], rfl, ?_⟩
        intro y
        simp only [receiveBody, hn, if_neg hc]
        rfl

theorem settles_receiveBehind {allowTrailers : Bool} {line : RequestLine} {version : Version}
    {r r' : FlatReader} {request : Request}
    (h : receiveBehind allowTrailers line version r = (.ok (.request request), r')) :
    Settles (receiveBehind allowTrailers line version) r (.ok (.request request)) r' := by
  rw [receiveBehind] at h
  rcases hb : Headers.readBlock 0 {} r with ⟨e | length, headers, r₁⟩
  · simp [hb] at h
  · simp only [hb] at h
    cases hm : effectiveMethod? line.method headers with
    | none => simp [hm] at h
    | some method =>
      simp only [hm] at h
      rcases hr : receiveBody allowTrailers headers r₁ with ⟨e | ⟨raw, headers'⟩, r₂⟩
      · simp [hr] at h
      · simp only [hr] at h
        cases h
        -- The octets of the block and those of the body together.
        obtain ⟨t₁, h₁, hf₁⟩ := Headers.settles_readBlock hb
        obtain ⟨t₂, h₂, hf₂⟩ := settles_receiveBody hr
        refine ⟨t₁ ++ t₂, ?_, ?_⟩
        · rw [List.append_assoc, ← h₂]
          exact h₁
        · intro y
          have hb' : Headers.readBlock 0 {} (withRest (t₁ ++ (t₂ ++ y)) r) =
              (.ok length, headers, withRest (t₂ ++ y) r₁) := hf₁ (t₂ ++ y)
          simp only [List.append_assoc, receiveBehind, hb', hm, hf₂ y]

/-! ### Requests -/

section

variable {ρ : Type} [ByteReader ρ] {υ : Type} [VersionResolver υ]

/-- How a request comes to be received. -/
theorem receive_eq_request_iff {allowTrailers : Bool} {versions versions' : υ} {r r' : ρ}
    {request : Request} :
    receive allowTrailers versions r = (.ok (.request request), versions', r') ↔
      ∃ text line version r₁, firstLine r = (.ok (some text), r₁) ∧
        RequestLine.ofText? text = some line ∧
        VersionResolver.resolve line.protocol versions = (.ok version, versions') ∧
        receiveBehind allowTrailers line version r₁ = (.ok (.request request), r') := by
  constructor
  · intro h
    rw [receive] at h
    rcases hl : firstLine r with ⟨e | _ | text, r₁⟩
    · simp [hl] at h
    · simp [hl] at h
    · simp only [hl] at h
      cases ht : RequestLine.ofText? text with
      | none => simp [ht] at h
      | some line =>
        simp only [ht] at h
        rcases hv : VersionResolver.resolve line.protocol versions with ⟨e | version, versions₁⟩
        · simp [hv] at h
        · simp only [hv, Prod.mk.injEq] at h
          obtain ⟨hr, rfl, hr'⟩ := h
          exact ⟨text, line, version, r₁, rfl, ht, hv, Prod.ext hr hr'⟩
  · rintro ⟨text, line, version, r₁, hl, ht, hv, hr⟩
    simp only [receive, hl, ht, hv, hr]

end

namespace FlatReader

/-- The number of octets taken last has no influence on the first line. -/
theorem firstLine_congr {a b : FlatReader} (hrest : a.rest = b.rest)
    (hcharset : a.charset = b.charset) : firstLine a = firstLine b := by
  obtain ⟨rest, charset, _⟩ := a
  obtain ⟨_, _, _⟩ := b
  obtain rfl : rest = _ := hrest
  obtain rfl : charset = _ := hcharset
  rw [firstLine_eq, firstLine_eq]
  rfl

/-- The octets taken for a request decide it, whatever follows them. -/
theorem receive_settled {υ : Type} [VersionResolver υ] [FaithfulResolver υ] {allowTrailers : Bool}
    {versions versions' : υ} {r r' : FlatReader} {request : Request} (hv : Faithful versions)
    (h : receive allowTrailers versions r = (.ok (.request request), versions', r')) :
    ∃ taken, r.rest = taken ++ r'.rest ∧
      ∀ {ω : Type} [VersionResolver ω] [FaithfulResolver ω] {others : ω} {a : FlatReader}
        {y : Bytes}, Faithful others → a.charset = r.charset → a.rest = taken ++ y →
        (receive allowTrailers others a).1 = .ok (.request request) ∧
          (receive allowTrailers others a).2.2.rest = y := by
  obtain ⟨text, line, version, r₁, hl, ht, hres, hb⟩ := receive_eq_request_iff.mp h
  have hline : Settles firstLine r (.ok (some text)) r₁ := by
    rcases settles_firstLine_or_exhausted hl with hs | hend
    · exact hs
    · -- Behind a line that has used everything up there is no header block.
      have hblock := Headers.ne_ok_readBlock_of_exhausted hend 0 {}
      rw [receiveBehind] at hb
      rcases hx : Headers.readBlock 0 {} r₁ with ⟨e | length, _, _⟩
      · simp [hx] at hb
      · exact absurd (by rw [hx]) (hblock length)
  obtain ⟨t₁, h₁, hf₁⟩ := hline
  obtain ⟨t₂, h₂, hf₂⟩ := settles_receiveBehind hb
  refine ⟨t₁ ++ t₂, ?_, ?_⟩
  · rw [List.append_assoc, show t₂ ++ r'.rest = r₁.rest from h₂.symm]
    exact h₁
  · intro ω _ _ others a y hothers hcharset ha
    have hla : firstLine a = (.ok (some text), withRest (t₂ ++ y) r₁) := by
      rw [← hf₁ (t₂ ++ y)]
      exact firstLine_congr (by rw [ha, List.append_assoc]; rfl) hcharset
    -- Two faithful resolvers agree on the version, whatever they remember.
    have hversion : Version.ofToken line.protocol = .ok version :=
      (FaithfulResolver.resolve_eq_ok_iff hv).mp (congrArg Prod.fst hres)
    have hresa : (VersionResolver.resolve line.protocol others).1 = .ok version :=
      (FaithfulResolver.resolve_eq_ok_iff hothers).mpr hversion
    have hall := receive_eq_request_iff.mpr
      ⟨text, line, version, _, hla, ht, Prod.ext hresa rfl, hf₂ y⟩
    rw [hall]
    exact ⟨rfl, rfl⟩

end FlatReader

/-! ### The decision -/

/-- Octets decide a request if every reader of the character set whose source does not fail

* receives that request and takes exactly those octets if it has them in front, whatever follows
  them;
* receives no request if all it has is a proper prefix of them. -/
structure Decides (allowTrailers : Bool) (charset : LineCharset) (taken : Bytes)
    (request : Request) : Prop where
  received : ∀ {υ σ : Type} [VersionResolver υ] [FaithfulResolver υ] [ByteSource σ]
    [StreamSource σ] {versions : υ} {r : BufferedReader σ}, Faithful versions → r.NeverFails →
    r.charset = charset → ∀ y, r.pending = taken ++ y →
      (receive allowTrailers versions r).1 = .ok (.request request) ∧
        (receive allowTrailers versions r).2.2.pending = y
  truncated : ∀ {υ σ : Type} [VersionResolver υ] [FaithfulResolver υ] [ByteSource σ]
    [StreamSource σ] {versions : υ} {r : BufferedReader σ}, Faithful versions → r.NeverFails →
    r.charset = charset → ∀ missing, missing ≠ [] → r.pending ++ missing = taken →
      ∀ q, (receive allowTrailers versions r).1 ≠ .ok (.request q)

namespace BufferedReader

variable {υ σ : Type} [VersionResolver υ] [FaithfulResolver υ] [ByteSource σ] [StreamSource σ]

/-- **The octets taken for a request decide it**, whatever the reader's source, its capacity and
the octets behind them are. -/
theorem receive_decided {allowTrailers : Bool} {versions versions' : υ} {r r' : BufferedReader σ}
    {request : Request} (hv : Faithful versions)
    (h : receive allowTrailers versions r = (.ok (.request request), versions', r')) :
    ∃ taken, r.pending = taken ++ r'.pending ∧
      Decides allowTrailers r.charset taken request := by
  have hflat := receive_flatten (congrArg Prod.fst h)
  rw [h] at hflat
  obtain ⟨taken, htaken, hall⟩ := FlatReader.receive_settled hv hflat
  refine ⟨taken, htaken, ?_, ?_⟩
  · intro ω τ _ _ _ _ others a hothers hnf hcharset y hy
    obtain ⟨hreceived, -, -, hrest⟩ := receive_eq_of_neverFails allowTrailers others hnf
    obtain ⟨hreq, hy'⟩ := hall (a := a.flatten) hothers hcharset hy
    exact ⟨hreceived.trans hreq, (congrArg FlatReader.rest hrest).trans hy'⟩
  · intro ω τ _ _ _ _ others a hothers hnf hcharset missing hmissing hprefix q hq
    -- The part alone would settle a request, and would do so in front of what is missing as well,
    -- but there the whole is taken.
    rw [(receive_eq_of_neverFails allowTrailers others hnf).1] at hq
    obtain ⟨part, hpart, hpartAll⟩ := FlatReader.receive_settled hothers
      (show receive allowTrailers others a.flatten = (.ok (.request q), _, _) from Prod.ext hq rfl)
    have hwhole : a.pending = part ++ (receive allowTrailers others a.flatten).2.2.rest := hpart
    obtain ⟨-, hshort⟩ := hpartAll (a := { a.flatten with rest := taken }) hothers rfl
      (by rw [← hprefix, hwhole, List.append_assoc])
    obtain ⟨-, hlong⟩ := hall (a := { a.flatten with rest := taken }) (y := []) hothers hcharset
      (List.append_nil taken).symm
    rw [hlong, List.nil_eq, List.append_eq_nil_iff] at hshort
    exact hmissing hshort.2

/-- A request is decided by its empty line, here found by a reader of small capacity over two pieces
with a part of the next line in the second. -/
theorem receive_decided_get :
    Decides true .ascii (Utf8.encode "GET / HTTP/1.1\r\n\r\n".toList)
      (Request.ofTarget ⟨"GET".toList, by decide⟩ "/".toList "HTTP/1.1".toList ⟨1, 1⟩ {} .empty) := by
  have hflat : receive true ({ inner := {} } : CachingResolver TokenParser)
      (ofSource (Client.sending [Utf8.encode "GET / HT".toList,
        Utf8.encode "TP/1.1\r\n\r\nPO".toList]) 5).flatten =
      (.ok (.request (Request.ofTarget ⟨"GET".toList, by decide⟩ "/".toList "HTTP/1.1".toList ⟨1, 1⟩
          {} .empty)),
        { inner := {}, slots := [("http/1.1".toList, .ok ⟨1, 1⟩)] },
        { rest := Utf8.encode "PO".toList, lastTaken := 2 }) := by
    let line : WireLine :=
      { text := "GET / HTTP/1.1".toList, plain := by decide, ending := .crlf }
    let empty := WireLine.empty .crlf
    let behind : FlatReader :=
      { rest := empty.octets ++ Utf8.encode "PO".toList, lastTaken := line.octets.length }
    have hoctets : [Utf8.encode "GET / HT".toList, Utf8.encode "TP/1.1\r\n\r\nPO".toList].flatten =
        line.octets ++ behind.rest := by decide
    rw [Client.flatten_sending, hoctets]
    have hline := line.firstLine_eq_of_empty (f := { rest := line.octets ++ behind.rest })
      (y := behind.rest) [] (by decide) rfl
    have hparts : RequestLine.ofText? line.text =
        some ⟨"GET".toList, "/".toList, "HTTP/1.1".toList⟩ := by decide
    have hblock := Headers.readBlock_eq 0 {} (r := behind)
    rw [empty.readLine_eq (f := behind) rfl] at hblock
    refine receive_eq_request_iff.mpr ⟨line.text, _, ⟨1, 1⟩, behind, hline, hparts, ?_, ?_⟩
    · rfl
    · have hmethod : effectiveMethod? "GET".toList {} = some ⟨"GET".toList, by decide⟩ := rfl
      have hbody (r : FlatReader) : receiveBody true {} r = (.ok ([], {}), r) := rfl
      rw [receiveBehind, hblock]
      simp only [show empty.text = [] from rfl, hmethod, hbody]
      rfl
  obtain ⟨r', hr, -, hr'⟩ := exists_receive_eq (Client.neverFails_sending _ 5 .ascii) hflat
  obtain ⟨taken, htaken, hdecides⟩ :=
    receive_decided (CachingResolver.sound_of_inner trivial) hr
  have hwhole := congrArg FlatReader.rest (Client.flatten_sending
    [Utf8.encode "GET / HT".toList, Utf8.encode "TP/1.1\r\n\r\nPO".toList] 5 .ascii)
  have hbehind : r'.pending = Utf8.encode "PO".toList := congrArg FlatReader.rest hr'
  have hcut : taken ++ Utf8.encode "PO".toList =
      Utf8.encode "GET / HTTP/1.1\r\n\r\n".toList ++ Utf8.encode "PO".toList := by
    rw [hbehind] at htaken
    rw [← htaken]
    exact hwhole.trans (by decide)
  exact List.append_cancel_right hcut ▸ hdecides

end BufferedReader

end HttpWire
