import HttpWire.Proofs.Field.Block
import HttpWire.Proofs.Reading.Ascii
import HttpWire.Proofs.Reading.Stopping
import HttpWire.Proofs.Request.Refused

/-!
# What counts as no request

Looking for a request comes to a request, to an error, or to nothing.  When it comes to nothing is
said here of the octets, without a reader (`NoRequest`): they end before a line, the line has too
few spaces, its token names no version, or the method is no token although there is a header block.

A reader finds the first line (`firstLine_of_firstText`, `firstText_of_firstLine`) and goes on to
the header block only behind one with an accepted token (`receive_of_accepts`).  From there on it is
only the method for which there is no request (`exists_badMethod`).  All of that is about lines in
ASCII, and holds in every character set (`receive_eq_inAscii`).
-/

namespace HttpWire

open FaithfulResolver (Faithful)

/-! ### The rules -/

/-- The first line that is not empty, with the octets behind it, or none if the octets end before
one. -/
inductive FirstText : Bytes → Option Text → Bytes → Prop
  | ended : FirstText [] none []
  | skip {octets taken rest text left}
    (hline : Takes .ascii .line octets (.line (.ok (some []))) taken rest)
    (h : FirstText rest text left) : FirstText octets text left
  | found {octets text taken left}
    (hline : Takes .ascii .line octets (.line (.ok (some text))) taken left) (hne : text ≠ []) :
    FirstText octets (some text) left

/-- The first line has two spaces at least, and its token names a version.  In front of the first
space stands the method. -/
def AcceptsLine (octets : Bytes) (method : Text) (left : Bytes) : Prop :=
  ∃ target token version, FirstText octets (some (method ++ ' ' :: (target ++ ' ' :: token))) left ∧
    ' ' ∉ method ∧ ' ' ∉ token ∧ Version.ofToken token = .ok version

/-- What the method of a request has to be: what stands in the request line, or the first value that
overrides it, in capital letters. -/
inductive MadeWith (method : Text) : List Field → Text → Prop
  | own {fs} (hfs : ∀ f ∈ fs, f.name ≠ .methodOverride) : MadeWith method fs method
  | overridden {front value behind text} (hfront : ∀ f ∈ front, f.name ≠ .methodOverride)
    (hvalue : Utf8.encode text = value.bytes) :
    MadeWith method (front ++ ⟨.methodOverride, value⟩ :: behind) (Text.upper text)

/-- From octets there is no request, and the octets behind what is passed over for that. -/
inductive NoRequest : Bytes → Bytes → Prop
  | ended {octets left} (hline : FirstText octets none left) : NoRequest octets left
  | fewSpaces {octets line left} (hline : FirstText octets (some line) left)
    (hspaces : line.count ' ' < 2) : NoRequest octets left
  | badToken {octets before token left}
    (hline : FirstText octets (some (before ++ ' ' :: token)) left) (htoken : ' ' ∉ token)
    (hversion : ∀ version, Version.ofToken token ≠ .ok version) : NoRequest octets left
  | badMethod {octets method fs block text left} (hline : AcceptsLine octets method (block ++ left))
    (hblock : BlockOf .ascii fs block) (hmade : MadeWith method fs text)
    (hmethod : isToken text = false) : NoRequest octets left

/-! ### The method -/

section

variable {method text : Text} {fs : List Field} {block : Bytes}

/-- The method of a request is the text that has to be one. -/
theorem effectiveMethod?_of_madeWith (h : MadeWith method fs text) :
    effectiveMethod? method ⟨fs⟩ = Method.ofText? text := by
  cases h with
  | own hfs => rw [effectiveMethod?, Headers.get?_eq_none_iff.mpr hfs]
  | @overridden front value behind text hfront hvalue =>
    have hnone : front.find? (·.name = .methodOverride) = none := by
      rw [List.find?_eq_none]
      intro f hf
      simpa using hfront f hf
    have hget : Headers.get? ⟨front ++ ⟨.methodOverride, value⟩ :: behind⟩ .methodOverride =
        some value := by
      rw [Headers.get?_eq_find?, List.find?_append, hnone, Option.none_or,
        List.find?_cons_of_pos (by simp)]
      rfl
    rw [effectiveMethod?, hget]
    simp only [FieldValue.textLossy, ← hvalue, Utf8.decodeLossy_encode]

theorem BlockOf.exists_writtenIn {charset : LineCharset} (hblock : BlockOf charset fs block) :
    ∀ f ∈ fs, ∃ line, f.WrittenIn line := by
  induction hblock with
  | done => exact List.forall_mem_nil _
  | @field _ _ line _ _ _ hwritten _ ih =>
    exact List.forall_mem_cons.mpr ⟨⟨line, hwritten⟩, ih⟩

/-- The fields of a block leave no doubt which text has to be the method. -/
theorem exists_madeWith (hblock : BlockOf .ascii fs block) (method : Text) :
    ∃ text, MadeWith method fs text := by
  cases hfind : fs.find? (·.name = .methodOverride) with
  | none =>
    refine ⟨method, .own ?_⟩
    intro f hf
    simpa using List.find?_eq_none.mp hfind f hf
  | some f =>
    obtain ⟨hname, front, behind, rfl, hfront⟩ := List.find?_eq_some_iff_append.mp hfind
    obtain ⟨line, -, after, -, -, hvalue⟩ := hblock.exists_writtenIn f (by simp)
    obtain ⟨name, value⟩ := f
    obtain rfl : name = .methodOverride := of_decide_eq_true hname
    exact ⟨_, .overridden (fun g hg => by simpa using hfront g hg) hvalue⟩

theorem effectiveMethod?_eq_none_iff (h : MadeWith method fs text) :
    effectiveMethod? method ⟨fs⟩ = none ↔ isToken text = false := by
  rw [effectiveMethod?_of_madeWith h, Method.ofText?]
  split
  · next htoken => simp [htoken]
  · next htoken => simpa using htoken

end

/-! ### The first line -/

section

variable {f : FlatReader} {left : Bytes} {x : Option Text}

/-- What is found as the first line is it. -/
theorem firstText_of_firstLine {g : FlatReader} (h : IsAsciiReader f)
    (hfirst : firstLine f = (.ok x, g)) : FirstText f.rest x g.rest ∧ g.charset = .ascii := by
  fun_induction firstLine f with
  | case1 f f' hread ih =>
    obtain ⟨_, _, hread', hascii, htakes⟩ := h.exists_readLine
    cases hread.symm.trans hread'
    obtain ⟨hline, hcharset⟩ := ih hascii hfirst
    exact ⟨.skip htakes hline, hcharset⟩
  | case2 f hne =>
    obtain ⟨_, _, hread, hascii, htakes⟩ := h.exists_readLine
    cases hfirst.symm.trans hread
    refine ⟨?_, hascii.charset⟩
    cases x with
    | none =>
      obtain ⟨hoctets, hleft⟩ := eq_nil_of_takes_none htakes
      rw [hoctets, hleft]
      exact .ended
    | some text =>
      refine .found htakes ?_
      rintro rfl
      exact hne _ hfirst

/-- **The first line that is not empty is found.** -/
theorem firstLine_of_firstText (hline : FirstText f.rest x left) (h : IsAsciiReader f) :
    ∃ g, firstLine f = (.ok x, g) ∧ g.rest = left ∧ g.charset = .ascii := by
  generalize hrest : f.rest = octets at hline
  induction hline generalizing f with
  | ended =>
    have htakes : Takes f.charset .line f.rest (.line (.ok none)) 0 [] := by
      rw [hrest]
      exact .noLine
    refine ⟨{ f with rest := [], lastTaken := 0 }, ?_, rfl, h.charset⟩
    rw [firstLine_eq, FlatReader.readLine_of_takes htakes]
  | skip htakes _ ih =>
    subst hrest
    have hread := FlatReader.readLine_of_takes (h.charset ▸ htakes)
    obtain ⟨_, _, hread', hascii, -⟩ := h.exists_readLine
    cases hread.symm.trans hread'
    rw [firstLine_eq, hread]
    exact ih hascii rfl
  | @found _ text taken left htakes hne =>
    subst hrest
    have hread := FlatReader.readLine_of_takes (h.charset ▸ htakes)
    obtain ⟨c, cs, rfl⟩ := List.exists_cons_of_ne_nil hne
    refine ⟨{ f with rest := left, lastTaken := taken }, ?_, rfl, h.charset⟩
    rw [firstLine_eq, hread]

end

/-! ### Receiving -/

section

variable {υ : Type} [VersionResolver υ] {allowTrailers : Bool} {versions versions' : υ}
  {f g : FlatReader} {line : RequestLine} {version : Version} {fs : List Field}
  {block left : Bytes} {method text : Text} {why : Absence}

/-- Behind a header block with a method that is no token there is no request. -/
theorem receiveBehind_of_badMethod (allowTrailers : Bool) (version : Version)
    (hcharset : f.charset = .ascii) (hblock : BlockOf .ascii fs block)
    (hrest : f.rest = block ++ left) (hmade : MadeWith line.method fs text)
    (hmethod : isToken text = false) :
    ∃ g, receiveBehind allowTrailers line version f = (.ok (.nothing .badMethod), g) ∧
      g.rest = left := by
  obtain ⟨last, hread⟩ := readBlock_of_blockOf (hcharset ▸ hblock) hrest 0 {}
  refine ⟨{ f with rest := left, lastTaken := last }, ?_, rfl⟩
  rw [receiveBehind, hread]
  simp only [List.nil_append, (effectiveMethod?_eq_none_iff hmade).mpr hmethod]

/-- Behind the request line it is only the method for which there is no request. -/
theorem exists_badMethod (hcharset : f.charset = .ascii)
    (h : receiveBehind allowTrailers line version f = (.ok (.nothing why), g)) :
    ∃ fs block text, f.rest = block ++ g.rest ∧ BlockOf .ascii fs block ∧
      MadeWith line.method fs text ∧ isToken text = false := by
  rw [receiveBehind] at h
  rcases hread : Headers.readBlock 0 {} f with ⟨e | n, headers, f'⟩
  · rw [hread] at h
    cases h
  · obtain ⟨fs, block, hblock, hrest, hheaders, -⟩ := blockOf_of_readBlock hcharset hread
    obtain rfl : headers = ⟨fs⟩ := hheaders
    obtain ⟨text, hmade⟩ := exists_madeWith hblock line.method
    simp only [hread] at h
    cases hmethod : effectiveMethod? line.method ⟨fs⟩ with
    | none =>
      rw [hmethod] at h
      cases h
      exact ⟨fs, block, text, hrest, hblock, hmade, (effectiveMethod?_eq_none_iff hmade).mp hmethod⟩
    | some method =>
      simp only [hmethod] at h
      rcases hbody : receiveBody allowTrailers ⟨fs⟩ f' with ⟨e | ⟨raw, headers⟩, f''⟩
      · rw [hbody] at h
        cases h
      · rw [hbody] at h
        cases h

variable [FaithfulResolver υ]

/-- Behind an accepted line the reader goes on to the header block. -/
theorem receive_of_accepts (allowTrailers : Bool) (hv : Faithful versions) (hf : IsAsciiReader f)
    (h : AcceptsLine f.rest method left) :
    ∃ line version versions' g, line.method = method ∧ g.rest = left ∧ g.charset = .ascii ∧
      receive allowTrailers versions f =
        ((receiveBehind allowTrailers line version g).1, versions',
          (receiveBehind allowTrailers line version g).2) := by
  obtain ⟨target, token, version, hline, hmethod, htoken, hversion⟩ := h
  obtain ⟨g, hfirst, hleft, hcharset⟩ := firstLine_of_firstText hline hf
  let line : RequestLine := ⟨method, Text.trim target, token⟩
  have hparts : RequestLine.ofText? (method ++ ' ' :: (target ++ ' ' :: token)) = some line :=
    RequestLine.ofText?_eq_some_iff.mpr ⟨target, rfl, hmethod, htoken, rfl⟩
  have hresolve := (FaithfulResolver.resolve_eq_ok_iff hv).mpr hversion
  rcases hres : VersionResolver.resolve token versions with ⟨answer, versions'⟩
  rw [hres] at hresolve
  obtain rfl : answer = .ok version := hresolve
  refine ⟨line, version, versions', g, rfl, hleft, hcharset, ?_⟩
  rw [receive, hfirst]
  simp only [hparts, line, hres]

/-- **Of octets that are no request nothing comes**, and what is passed over is theirs. -/
theorem receive_of_noRequest (hv : Faithful versions) (hf : IsAsciiReader f)
    (h : NoRequest f.rest left) :
    ∃ why versions' g, receive allowTrailers versions f = (.ok (.nothing why), versions', g) ∧
      g.rest = left := by
  cases h with
  | ended hline =>
    obtain ⟨g, hfirst, hleft, -⟩ := firstLine_of_firstText hline hf
    refine ⟨.endOfInput, versions, g, ?_, hleft⟩
    rw [receive, hfirst]
  | fewSpaces hline hspaces =>
    obtain ⟨g, hfirst, hleft, -⟩ := firstLine_of_firstText hline hf
    refine ⟨.malformedLine, versions, g, ?_, hleft⟩
    rw [receive, hfirst]
    simp only [RequestLine.ofText?_eq_none_iff.mpr hspaces]
  | @badToken before token _ hline htoken hversion =>
    obtain ⟨g, hfirst, hleft, -⟩ := firstLine_of_firstText hline hf
    rw [receive, hfirst]
    cases hparts : RequestLine.ofText? (before ++ ' ' :: token) with
    | none =>
      refine ⟨.malformedLine, versions, g, ?_, hleft⟩
      simp only [hparts]
    | some line =>
      obtain rfl : line.protocol = token := RequestLine.protocol_eq htoken hparts
      rcases hres : VersionResolver.resolve line.protocol versions with ⟨e | version, versions'⟩
      · refine ⟨.unsupportedProtocol e, versions', g, ?_, hleft⟩
        simp only [hparts, hres]
      · have hok := (FaithfulResolver.resolve_eq_ok_iff hv).mp (congrArg Prod.fst hres)
        exact absurd hok (hversion version)
  | badMethod hline hblock hmade hmethod =>
    obtain ⟨line, version, versions', g, rfl, hrest, hcharset, hreceive⟩ :=
      receive_of_accepts allowTrailers hv hf hline
    obtain ⟨g', hbehind, hleft⟩ := receiveBehind_of_badMethod allowTrailers version hcharset
      hblock hrest hmade hmethod
    rw [hbehind] at hreceive
    exact ⟨.badMethod, versions', g', hreceive, hleft⟩

/-- **Octets of which nothing comes are no request.** -/
theorem noRequest_of_receive (hv : Faithful versions) (hf : IsAsciiReader f)
    (h : receive allowTrailers versions f = (.ok (.nothing why), versions', g)) :
    NoRequest f.rest g.rest := by
  rw [receive] at h
  rcases hfirst : firstLine f with ⟨e | _ | text, f'⟩
  · rw [hfirst] at h
    cases h
  · rw [hfirst] at h
    cases h
    exact .ended (firstText_of_firstLine hf hfirst).1
  · obtain ⟨hline, hcharset⟩ := firstText_of_firstLine hf hfirst
    simp only [hfirst] at h
    cases hparts : RequestLine.ofText? text with
    | none =>
      rw [hparts] at h
      cases h
      exact .fewSpaces hline (RequestLine.ofText?_eq_none_iff.mp hparts)
    | some line =>
      obtain ⟨target, rfl, hmethod, hprotocol, -⟩ := RequestLine.ofText?_eq_some_iff.mp hparts
      simp only [hparts] at h
      rcases hres : VersionResolver.resolve line.protocol versions with ⟨e | version, versions''⟩
      · rw [hres] at h
        cases h
        rw [← List.cons_append, ← List.append_assoc] at hline
        refine .badToken hline hprotocol ?_
        intro version hversion
        have hok := (FaithfulResolver.resolve_eq_ok_iff hv).mpr hversion
        rw [hres] at hok
        cases hok
      · have hversion := (FaithfulResolver.resolve_eq_ok_iff hv).mp (congrArg Prod.fst hres)
        simp only [hres, Prod.mk.injEq] at h
        obtain ⟨hnothing, -, hleft⟩ := h
        obtain ⟨fs, block, text, hrest, hblock, hmade, htoken⟩ :=
          exists_badMethod hcharset (Prod.ext hnothing hleft)
        rw [hrest] at hline
        exact .badMethod ⟨target, _, version, hline, hmethod, hprotocol, hversion⟩ hblock hmade
          htoken

end

/-! ### On a connection -/

namespace BufferedReader

variable {υ σ : Type} [VersionResolver υ] [ByteSource σ] [StreamSource σ] {versions : υ}
  {r : BufferedReader σ}

/-- On octets of ASCII a reader receives what the flat reader with lines in ASCII receives. -/
theorem receive_eq_inAscii (hr : r.NeverFails) (hascii : ∀ b ∈ r.pending, b < 0x80)
    (allowTrailers : Bool) (versions : υ) :
    let f : FlatReader := { r.flatten with charset := .ascii }
    (receive allowTrailers versions r).1 = (receive allowTrailers versions f).1 ∧
      (receive allowTrailers versions r).2.2.pending =
        (receive allowTrailers versions f).2.2.rest := by
  intro f
  obtain ⟨heq, -, -, hflat⟩ := receive_eq_of_neverFails allowTrailers versions hr
  have hag := lockstep_inAscii.receive allowTrailers versions (a := r.flatten) (b := f)
    ⟨rfl, rfl, hascii⟩
  obtain ⟨heq', -, hsame, -⟩ := hag.eq
  refine ⟨heq.trans heq', ?_⟩
  rw [hsame]
  exact congrArg FlatReader.rest hflat

variable [FaithfulResolver υ]

/-- **What counts as no request.**  A reader stands in front of octets of ASCII and its source never
fails.

* Nothing comes of the octets exactly if they are no request: if they end before a line, if the
  first line has fewer than two spaces, if its token names no version, or if the method is no token
  although there is a header block.
* Then the empty lines in front and that line have been taken, and in the last case the header
  block.
* In all other cases there is a request or an error, which does not come from the transport.
* Behind an accepted line there is one or the other, unless there is a header block with a method
  that is no token. -/
theorem receive_nothing_iff (hv : Faithful versions) (hr : r.NeverFails)
    (hascii : ∀ b ∈ r.pending, b < 0x80) (allowTrailers : Bool) :
    ((∃ why, (receive allowTrailers versions r).1 = .ok (.nothing why)) ↔
        ∃ left, NoRequest r.pending left) ∧
      (∀ left, NoRequest r.pending left →
        (receive allowTrailers versions r).2.2.pending = left) ∧
      ((¬ ∃ left, NoRequest r.pending left) →
        (∃ request, (receive allowTrailers versions r).1 = .ok (.request request)) ∨
          ∃ e, (receive allowTrailers versions r).1 = .error (.fault e) ∧ ∀ io, e ≠ .io io) ∧
      ∀ method left, AcceptsLine r.pending method left →
        (∀ fs block text behind, left = block ++ behind → BlockOf .ascii fs block →
          MadeWith method fs text → isToken text = true) →
        ∀ why, (receive allowTrailers versions r).1 ≠ .ok (.nothing why) := by
  obtain ⟨heq, hpending⟩ := receive_eq_inAscii hr hascii allowTrailers versions
  rw [heq, hpending]
  let f : FlatReader := { r.flatten with charset := .ascii }
  have hf : IsAsciiReader f := ⟨rfl, hascii⟩
  have hiff : (∃ why, (receive allowTrailers versions f).1 = .ok (.nothing why)) ↔
      ∃ left, NoRequest f.rest left := by
    constructor
    · rintro ⟨why, hnothing⟩
      exact ⟨_, noRequest_of_receive hv hf (Prod.ext hnothing rfl)⟩
    · rintro ⟨left, hno⟩
      obtain ⟨why, _, _, hreceive, -⟩ := receive_of_noRequest hv hf hno
      exact ⟨why, congrArg Prod.fst hreceive⟩
  refine ⟨hiff, ?_, ?_, ?_⟩
  · intro left hno
    obtain ⟨_, _, _, hreceive, hleft⟩ := receive_of_noRequest hv hf hno
    rw [hreceive]
    exact hleft
  · intro hno
    have hleads := FlatReader.stoppable.receive allowTrailers versions (r := f) trivial
    rcases hreceive : receive allowTrailers versions f with ⟨answer, versions', g⟩
    rw [hreceive] at hleads hiff
    cases hleads with
    | refused he _ => exact .inr ⟨_, rfl, he⟩
    | stopped h => exact h.elim
    | @ok received _ _ =>
      cases received with
      | request request => exact .inl ⟨request, rfl⟩
      | nothing why => exact absurd (hiff.mp ⟨why, rfl⟩) hno
  · intro method left haccepts hmethod why hnothing
    obtain ⟨line, version, versions', g, rfl, rfl, hcharset, hreceive⟩ :=
      receive_of_accepts allowTrailers hv hf haccepts
    rw [hreceive] at hnothing
    obtain ⟨fs, block, text, hrest, hblock, hmade, htoken⟩ :=
      exists_badMethod hcharset (Prod.ext hnothing rfl)
    rw [hmethod fs block text _ hrest hblock hmade] at htoken
    cases htoken

/-- A request whose method is overridden by a text that is no token: the empty line in front, the
request line and the header block are taken, and there is no request. -/
theorem receive_nothing_iff_overridden :
    let r := ofSource (Pieces.mk [Utf8.encode "\r\nPOST / HT".toList,
      Utf8.encode "TP/1.1\n_Method: b(d\r\n\r\nrest".toList]) 4 .ascii
    let c : CachingResolver TokenParser := { inner := {} }
    (∃ why, (receive true c r).1 = .ok (.nothing why)) ∧
      (receive true c r).2.2.pending = Utf8.encode "rest".toList := by
  intro r c
  have hline (t : String) (ending : LineEnd) (h : Text.IsPlain t.toList) :
      LineOf .ascii t.toList (Utf8.encode t.toList ++ ending.octets) :=
    WireLine.lineOf ⟨t.toList, h, ending⟩ .ascii
  let value : FieldValue := ⟨Utf8.encode "b(d".toList, by decide⟩
  let block : Bytes := Utf8.encode "_Method: b(d".toList ++ LineEnd.crlf.octets ++
    (Utf8.encode "".toList ++ LineEnd.crlf.octets)
  have hblock : BlockOf .ascii ([] ++ ⟨.methodOverride, value⟩ :: []) block :=
    .field (hline "_Method: b(d" .crlf (by decide))
      ⟨"_Method".toList, " b(d".toList, rfl, by decide, by decide⟩
      (.done (hline "" .crlf (by decide)))
  have hmade : MadeWith "POST".toList ([] ++ ⟨.methodOverride, value⟩ :: []) _ :=
    .overridden (List.forall_mem_nil _) rfl
  have hempty (after : Bytes) :
      Takes .ascii .line ([] ++ carriageReturn :: lineFeed :: after) (.line (.ok (some []))) 2
        after :=
    .crlf List.not_mem_nil (LineCharset.reads_iff.mpr rfl)
  have hpost (after : Bytes) :
      Takes .ascii .line (Utf8.encode "POST / HTTP/1.1".toList ++ lineFeed :: after)
        (.line (.ok (some ("POST".toList ++ ' ' :: ("/".toList ++ ' ' :: "HTTP/1.1".toList))))) 16
        after :=
    .lf (by decide) (by decide) (LineCharset.reads_iff.mpr rfl)
  have hpending : r.pending = [] ++ carriageReturn :: lineFeed ::
      (Utf8.encode "POST / HTTP/1.1".toList ++
        lineFeed :: (block ++ Utf8.encode "rest".toList)) := by
    decide
  have hno : NoRequest r.pending (Utf8.encode "rest".toList) := by
    rw [hpending]
    exact .badMethod ⟨"/".toList, "HTTP/1.1".toList, ⟨1, 1⟩,
      .skip (hempty _) (.found (hpost _) (by decide)), by decide, by decide, rfl⟩ hblock hmade
      (by decide)
  have hv : Faithful c := CachingResolver.sound_of_inner trivial
  have hr : r.NeverFails := Pieces.neverFails _ 4 .ascii
  have hascii : ∀ b ∈ r.pending, b < 0x80 := by
    have hall : (r.pending.all fun b => decide (b < 0x80)) = true := by decide
    exact fun b hb => of_decide_eq_true (List.all_eq_true.mp hall b hb)
  obtain ⟨hiff, hleft, -⟩ := receive_nothing_iff hv hr hascii true
  exact ⟨hiff.mpr ⟨_, hno⟩, hleft _ hno⟩

end BufferedReader

end HttpWire
