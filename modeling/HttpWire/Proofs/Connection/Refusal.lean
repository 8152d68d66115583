import HttpWire.Proofs.Connection.Pipelining
import HttpWire.Proofs.Connection.Turns
import HttpWire.Proofs.Message.Refused

/-!
# What follows a refusal on a kept connection

A kept connection that finds no request looks again from where the reader was left, and what it
finds there may be a request.  So the body of a message that was refused may be taken for the next
request, and a message with a faulty request line may even give one from the middle of its header
block, if a `_method` field further down stands in for the method (`begins_inside`).

That is all that can happen (`begins_of_refused`): the reader goes along the header block line by
line, in each turn of the loop (`along_of_reaches`), and header lines by themselves are no request
lines.
-/

namespace HttpWire.Connection

variable {υ : Type} [VersionResolver υ] {s : Service} {stage stage' : Stage} {c c' : Connection υ}
  {y : Bytes} {q : Request}

/-! ### Where later requests begin -/

/-- The octets at which the next request begins, if there is one: those from the first line on that
is not empty. -/
def begins (c : Connection υ) : Bytes :=
  c.reader.flatten.fromFirstLine

theorem along_of_turn {fs₀ : List Field} (h : Along fs₀ y c.reader.flatten)
    (hturn : turn? s stage c = some (stage', c')) : Along fs₀ y c'.reader.flatten := by
  obtain ⟨received, versions, hr⟩ := receive_flatten_of_turn hturn
  exact (along_receive h hr).1

/-- A connection in a header block or behind it stays there. -/
theorem along_of_reaches {x x' : Stage × Connection υ} {fs₀ : List Field}
    (h : Along fs₀ y x.2.reader.flatten) (hreach : Reaches s x x') :
    Along fs₀ y x'.2.reader.flatten := by
  induction hreach with
  | refl => exact h
  | tail _ hturn ih => exact along_of_turn ih hturn

/-- A connection only moves forward. -/
theorem suffix_of_reaches {x x' : Stage × Connection υ} (h : x.2.reader.flatten.rest <:+ y)
    (hreach : Reaches s x x') : x'.2.reader.flatten.rest <:+ y := by
  induction hreach with
  | refl => exact h
  | tail _ hturn ih =>
    obtain ⟨received, versions, hr⟩ := receive_flatten_of_turn hturn
    exact suffix_receive ih hr

theorem receive_flatten_of_hands (h : Hands s stage c q) :
    ∃ versions f', receive s.settings.allowTrailers c.versions c.reader.flatten =
      (.ok (.request q), versions, f') := by
  obtain ⟨versions, hflat⟩ := receive_flatten_of_receiveRequest (Prod.ext h.received rfl)
  exact ⟨versions, _, hflat⟩

/-- In the run of a connection, when it is kept, a message is refused, as in `Refuses`, and later a
request is handed that begins at the octets `start`. -/
def HandsBehindRefusal (s : Service) (c₀ : Connection υ) (why : Absence) (h : Headers)
    (afterLine afterBlock afterBody start : Bytes) : Prop :=
  ∃ c₁ empty c stage' c' q, c₀.shakeHands s = (.ok (), c₁) ∧
    Reaches s (.fresh, c₁) (.kept empty, c) ∧
    Refuses s.settings.allowTrailers c.versions c.reader.flatten why h afterLine afterBlock
      afterBody ∧
    Reaches s (.kept empty, c) (stage', c') ∧ Hands s stage' c' q ∧ start = c'.begins

/-! ### Turns of a connection that is served -/

section

variable [FaithfulResolver υ] {startTime : Timeline} {remote : Option Address} {count : Nat}
  {seen : List Sight} {versions' : υ} {f' : FlatReader}

/-- Behind an exchange that finds no request the loop looks again from where the reader is left. -/
theorem Serving.turn_absent {why : Absence} (stage : Stage)
    (h : Serving startTime remote count seen y c) (hy : y ≠ [])
    (hidle : s.settings.idleTimeout = none) (hlook : stage.lookAgain? s.settings = some stage')
    (hflat : receive s.settings.allowTrailers c.versions c.reader.flatten =
      (.ok (.nothing why), versions', f'))
    (hv : FaithfulResolver.Faithful versions') :
    ∃ c', turn? s stage c = some (stage', c') ∧ Serving startTime remote count seen f'.rest c' := by
  obtain ⟨c₁, hexchange, h₁⟩ := h.exchange_absent hflat hv
  have h₂ := h₁.onTimeline_nil (f := (·.pass s.settings.backoff))
    (Timeline.adds_pass h₁.cancelAt h₁.horizon _)
  rw [← stage.idleTimeout_eq_none hidle] at hexchange
  exact ⟨_, turn?_of_noRequest h.isOver (h.isConnected hy) hexchange hlook, h₂⟩

/-- Behind a message the loop goes on if the pipeline lets it. -/
theorem Serving.turn_message (stage : Stage) (m : Message)
    (h : Serving startTime remote count seen (m.octets ++ y) c)
    (hidle : s.settings.idleTimeout = none) {x : Execution}
    (hx : x = (s.pipeline count).executionOf remote (m.request s.settings.allowTrailers))
    (ha : x.Answers) (hopen : x.context.StaysOpen) :
    ∃ c' seen', turn? s stage c = some (.kept 0, c') ∧
      Serving startTime remote (count + 1) seen' y c' := by
  obtain ⟨c₁, hexchange, h₁⟩ := h.exchange_message m hx ha
  rw [decide_eq_true hopen] at hexchange
  have hne : m.octets ++ y ≠ [] := by
    intro hnil
    exact absurd (List.append_eq_nil_iff.mp hnil).1 m.octets_ne_nil
  rw [← stage.idleTimeout_eq_none hidle] at hexchange
  exact ⟨c₁, _, turn?_of_handled h.isOver (h.isConnected hne) hexchange, h₁⟩

/-- An exchange hands what the flat reader receives. -/
theorem Serving.hands (h : Serving startTime remote count seen y c) (hy : y ≠ [])
    (hidle : s.settings.idleTimeout = none)
    (hflat : receive s.settings.allowTrailers c.versions c.reader.flatten =
      (.ok (.request q), versions', f'))
    (hv : FaithfulResolver.Faithful versions') : Hands s stage c q := by
  obtain ⟨c₁, hreceive, -⟩ := h.receiveRequest hflat hv
  refine ⟨h.isOver, h.isConnected hy, ?_, ?_⟩
  · rw [stage.idleTimeout_eq_none hidle]
    exact h.isCancelledFirst
  · rw [stage.idleTimeout_eq_none hidle, hreceive]

end

/-! ### Requests that begin inside -/

/-- A request for the root, with those lines in its header block and no body. -/
def getRoot (blanks : List LineEnd) (lines : List HeaderLine)
    (override : ∀ t, HeaderLine.first? .methodOverride lines = some t → isToken t = true)
    (announced : Announces lines 0)
    (unlisted : ¬ (HeaderLine.headers lines).Lists .transferEncoding "chunked".toList) :
    Message where
  blanks
  method := ⟨"GET".toList, by decide⟩
  target := "/".toList
  target_plain := by decide
  target_trimmed := by decide
  protocol := "HTTP/1.1".toList
  version := ⟨1, 1⟩
  accepted := rfl
  ending := .crlf
  lines
  blockEnding := .crlf
  override
  content := .nothing announced unlisted

/-- The request for the root that asks for the connection to be kept. -/
def keptRequest : Message :=
  getRoot []
    [.spaced .connection "Connection".toList "keep-alive".toList .crlf (by decide) (by decide)
      (by decide)]
    (by decide) rfl (by decide)

/-- The connection with a client that sends `keptRequest` and then those octets. -/
def ofKept (octets : Bytes) : Connection TokenParser :=
  ofClient {} TokenParser.mk (Client.sending [keptRequest.octets, octets])

/-- The first request is served, and the others are left to a kept connection. -/
theorem exists_reaches_kept (octets : Bytes) :
    ∃ c₁ c startTime seen, (ofKept octets).shakeHands {} = (.ok (), c₁) ∧
      Reaches {} (.fresh, c₁) (.kept 0, c) ∧ Serving startTime none 1 seen octets c := by
  let client : Timed Client :=
    ⟨(Client.sending [keptRequest.octets, octets]).subject, Timeline.wire {} .handshake⟩
  have hready : Client.IsReady client :=
    { peer := ⟨_, rfl, Client.isSteady_sending _, Intake.acceptsAll_default⟩
      cancelAt := rfl
      horizon := rfl }
  have hserving : Serving client.timeline none 0 [] (keptRequest.octets ++ octets)
      (ofClient {} TokenParser.mk client) := by
    have h := serving_ofClient {} (show FaithfulResolver.Faithful TokenParser.mk from trivial)
      hready
    have hpending := Client.upcoming_sending [keptRequest.octets, octets]
    rw [List.flatten_cons, List.flatten_cons, List.flatten_nil, List.append_nil] at hpending
    rw [← hpending]
    exact h
  obtain ⟨c, seen, hturn, hc⟩ := hserving.turn_message (s := {}) .fresh keptRequest rfl rfl
    ⟨List.not_mem_nil, fun reply hreply => by cases hreply⟩ (by decide)
  exact ⟨ofClient {} TokenParser.mk client, c, _, seen, rfl, .single hturn, hc⟩

/-- The line that is no request line. -/
def badLine : WireLine :=
  { text := "BAD".toList, plain := by decide, ending := .crlf }

/-- A header line that overrides the method. -/
def overrideLine (value : Text) (visible : value.IsVisible) (trimmed : Text.trim value = value) :
    HeaderLine :=
  .spaced .methodOverride "_method".toList value .crlf (by decide) visible trimmed

/-- A header line that announces a body of 18 octets. -/
def lengthLine : HeaderLine :=
  .spaced .contentLength "Content-Length".toList "18".toList .crlf (by decide) (by decide)
    (by decide)

/-- The line that is no request line is refused, and the loop looks again behind it. -/
theorem exists_reaches_behind_badLine (y : Bytes) :
    ∃ c₁ c c' startTime seen, (ofKept (badLine.octets ++ y)).shakeHands {} = (.ok (), c₁) ∧
      Reaches {} (.fresh, c₁) (.kept 0, c) ∧ c.reader.flatten.rest = badLine.octets ++ y ∧
      (receive true c.versions c.reader.flatten).1 = .ok (.nothing .malformedLine) ∧
      turn? {} (.kept 0) c = some (.kept 1, c') ∧ Serving startTime none 1 seen y c' := by
  obtain ⟨c₁, c, startTime, seen, hshake, hreach, hc⟩ := exists_reaches_kept (badLine.octets ++ y)
  obtain ⟨f', hrefused, rfl⟩ := badLine.receive_eq_malformedLine true c.versions (by decide)
    (by decide) (f := c.reader.flatten) hc.pending
  have hne : badLine.octets ++ f'.rest ≠ [] := by
    intro h
    exact absurd (List.append_eq_nil_iff.mp h).1 (by decide)
  obtain ⟨c', hturn, hc'⟩ := hc.turn_absent (s := {}) (.kept 0) hne rfl rfl hrefused
    trivial
  exact ⟨c₁, c, c', startTime, seen, hshake, hreach, hc.pending, congrArg Prod.fst hrefused, hturn,
    hc'⟩

/-- A header line may be the request line of a request. -/
theorem handsBehindRefusal_header :
    let block := Utf8.encode "X: / HTTP/1.1\r\n_method: GET\r\n\r\n".toList
    ∃ h, HandsBehindRefusal {} (ofKept (Utf8.encode "BAD\r\n".toList ++ block))
      .malformedLine h block [] [] block := by
  intro block
  let header := HeaderLine.spaced ⟨"x".toList, by decide⟩ "X".toList "/ HTTP/1.1".toList .crlf
    (by decide) (by decide) (by decide)
  let line : WireLine := { text := header.text, plain := by decide, ending := .crlf }
  let override := overrideLine "GET".toList (by decide) (by decide)
  let m := getRoot [] [override] (by decide) rfl (by decide)
  have hblock : block = HeaderLine.blockOctets [header, override] .crlf ++ [] := by decide
  have hrequest : block = line.octets ++ (HeaderLine.blockOctets m.lines m.blockEnding ++
    (m.contentOctets ++ [])) := by decide
  obtain ⟨c₁, c, c', startTime, seen, hshake, hreach, hpending, hrefused, hturn, hc'⟩ :=
    exists_reaches_behind_badLine block
  obtain ⟨f', hreceive, -⟩ := m.receive_eq_of_line true [] line
    ⟨"X:".toList, "/".toList, "HTTP/1.1".toList⟩
    (show FaithfulResolver.Faithful c'.versions from trivial) (by decide) (by decide) rfl rfl
    (f := c'.reader.flatten) (hc'.pending.trans hrequest)
  refine ⟨HeaderLine.headers [header, override], c₁, 0, c, _, c', _, hshake, hreach, ?_,
    .single hturn, hc'.hands (by decide) rfl hreceive trivial, ?_⟩
  · rw [hblock] at hpending ⊢
    exact badLine.refuses (by decide) (n := 0) rfl (Nat.zero_le _) hpending hrefused
  · rw [hrequest]
    exact (line.fromFirstLine_eq_of_empty [] (by decide) (hc'.pending.trans hrequest)).symm

/-- A body may be taken for a request, when the line and the header block in front of it have been
looked through. -/
theorem handsBehindRefusal_body :
    let block := Utf8.encode "Content-Length: 18\r\n\r\n".toList
    let body := Utf8.encode "GET / HTTP/1.1\r\n\r\n".toList
    ∃ h, h.contains .methodOverride = false ∧
      HandsBehindRefusal {} (ofKept (Utf8.encode "BAD\r\n".toList ++ (block ++ body)))
        .malformedLine h (block ++ body) body [] body := by
  intro block body
  let line : WireLine := { text := lengthLine.text, plain := by decide, ending := .crlf }
  let m := getRoot [.crlf] [] (by decide) rfl (by decide)
  have hblock : block ++ body = HeaderLine.blockOctets [lengthLine] .crlf ++ body := by decide
  have hline : block ++ body = line.octets ++ (m.octets ++ []) := by decide
  obtain ⟨c₀, c, c₁, startTime, seen, hshake, hreach, hpending, hrefused, hturn, hc₁⟩ :=
    exists_reaches_behind_badLine (block ++ body)
  obtain ⟨f₁, hrefused₁, hf₁⟩ := line.receive_eq_malformedLine true c₁.versions
    (by decide) (by decide) (f := c₁.reader.flatten) (hc₁.pending.trans hline)
  obtain ⟨c₂, hturn₁, hc₂⟩ := hc₁.turn_absent (s := {}) (.kept 1) (by decide) rfl rfl
    hrefused₁ trivial
  rw [hf₁] at hc₂
  obtain ⟨f₂, hreceive, -⟩ := m.receive_eq true
    (show FaithfulResolver.Faithful c₂.versions from trivial) (f := c₂.reader.flatten) hc₂.pending
  refine ⟨HeaderLine.headers [lengthLine], by decide, c₀, 0, c, _, c₂, _, hshake, hreach, ?_,
    .tail (.single hturn) hturn₁, hc₂.hands (by decide) rfl hreceive trivial, ?_⟩
  · rw [hblock] at hpending ⊢
    exact badLine.refuses (by decide) (n := 18)
      ⟨Text.toNat?_eq_some_iff.mp (by decide), by decide⟩ (by decide) hpending hrefused
  · exact (m.line.fromFirstLine_eq_of_empty m.blanks (by decide) hc₂.pending).symm

/-- A body may be taken for a request, when the method in front of it is none. -/
theorem handsBehindRefusal_method :
    let block := Utf8.encode "_method: G(T\r\nContent-Length: 18\r\n\r\n".toList
    let body := Utf8.encode "GET / HTTP/1.1\r\n\r\n".toList
    ∃ h, HandsBehindRefusal {}
      (ofKept (Utf8.encode "POST / HTTP/1.1\r\n".toList ++ (block ++ body)))
      .badMethod h (block ++ body) body [] body := by
  intro block body
  let l : WireLine := { text := "POST / HTTP/1.1".toList, plain := by decide, ending := .crlf }
  let lines := [overrideLine "G(T".toList (by decide) (by decide), lengthLine]
  let m := getRoot [] [] (by decide) rfl (by decide)
  have hblock : block ++ body = HeaderLine.blockOctets lines .crlf ++ body := by decide
  obtain ⟨c₁, c, startTime, seen, hshake, hreach, hc⟩ :=
    exists_reaches_kept (Utf8.encode "POST / HTTP/1.1\r\n".toList ++ (block ++ body))
  have hpending := hc.pending
  rw [hblock] at hpending
  obtain ⟨f₁, hrefused, hf₁⟩ := l.receive_eq_badMethod true
    ⟨"POST".toList, "/".toList, "HTTP/1.1".toList⟩ lines .crlf (by decide)
    (show (VersionResolver.resolve _ c.versions).1 = .ok ⟨1, 1⟩ from rfl) (by decide)
    (f := c.reader.flatten) hpending
  obtain ⟨c', hturn, hc'⟩ := hc.turn_absent (s := {}) (.kept 0) (by decide) rfl rfl
    hrefused trivial
  rw [hf₁] at hc'
  obtain ⟨f₂, hreceive, -⟩ := m.receive_eq true (y := [])
    (show FaithfulResolver.Faithful c'.versions from trivial) (f := c'.reader.flatten)
    (hc'.pending.trans (by decide))
  refine ⟨HeaderLine.headers lines, c₁, 0, c, _, c', _, hshake, hreach, ?_, .single hturn,
    hc'.hands (by decide) rfl hreceive trivial, ?_⟩
  · rw [hblock]
    exact l.refuses (by decide) (n := 18) ⟨Text.toNat?_eq_some_iff.mp (by decide), by decide⟩
      (by decide) hpending (congrArg Prod.fst hrefused)
  · exact (m.line.fromFirstLine_eq_of_empty [] (by decide) (hc'.pending.trans (by decide))).symm

/-- **A request may begin inside a message that was refused**: in its header block, behind a line
that was refused in front of a block that overrides the method; in its body, behind a line that was
refused in front of a block that does not; and in its body, behind a method that was refused. -/
theorem begins_inside :
    let line := Utf8.encode "BAD\r\n".toList
    let overridden := Utf8.encode "X: / HTTP/1.1\r\n_method: GET\r\n\r\n".toList
    let block := Utf8.encode "Content-Length: 18\r\n\r\n".toList
    let post := Utf8.encode "POST / HTTP/1.1\r\n".toList
    let badMethod := Utf8.encode "_method: G(T\r\nContent-Length: 18\r\n\r\n".toList
    let body := Utf8.encode "GET / HTTP/1.1\r\n\r\n".toList
    (∃ h afterLine afterBlock afterBody start,
      HandsBehindRefusal {} (ofKept (line ++ overridden)) .malformedLine h afterLine afterBlock
        afterBody start ∧ start <:+ afterLine ∧ ¬start <:+ afterBlock) ∧
    (∃ h afterLine afterBlock afterBody start, h.contains .methodOverride = false ∧
      HandsBehindRefusal {} (ofKept (line ++ (block ++ body))) .malformedLine h afterLine afterBlock
        afterBody start ∧ ¬start <:+ afterBody) ∧
    ∃ h afterLine afterBlock afterBody start,
      HandsBehindRefusal {} (ofKept (post ++ (badMethod ++ body))) .badMethod h afterLine afterBlock
        afterBody start ∧ ¬start <:+ afterBody := by
  intro line overridden block post badMethod body
  refine ⟨?_, ?_, ?_⟩
  · obtain ⟨h, hhands⟩ := handsBehindRefusal_header
    exact ⟨h, overridden, [], [], overridden, hhands, List.suffix_rfl, by decide⟩
  · obtain ⟨h, hover, hhands⟩ := handsBehindRefusal_body
    exact ⟨h, block ++ body, body, [], body, hover, hhands, by decide⟩
  · obtain ⟨h, hhands⟩ := handsBehindRefusal_method
    exact ⟨h, badMethod ++ body, body, [], body, hhands, by decide⟩

/-! ### Where no request begins -/

/-- **No request begins inside the header block of a message that was refused**, except behind a
request line that was refused, at a header line in front of one that overrides the method. -/
theorem begins_of_refused {c₀ : Connection υ} {why : Absence} {h : Headers}
    {afterLine afterBlock afterBody start : Bytes}
    (hrefused : HandsBehindRefusal s c₀ why h afterLine afterBlock afterBody start) :
    start <:+ afterBlock ∨ (why ≠ .badMethod ∧ AtOverridden h.fields afterBlock start) := by
  obtain ⟨c₁, empty, c, stage', c', q, -, -, hr, hreach, hhands, rfl⟩ := hrefused
  obtain ⟨versions', f', hrequest⟩ := receive_flatten_of_hands hhands
  -- The exchange that refuses hands nothing, so the loop has gone on.
  rcases Relation.ReflTransGen.cases_head hreach with heq | ⟨⟨stage₂, c₂⟩, hturn, hreach₂⟩
  · cases heq
    have hnothing := hr.refused
    rw [hrequest] at hnothing
    cases hnothing
  · obtain ⟨received, versions, hflat⟩ := receive_flatten_of_turn hturn
    have hafter : (receive s.settings.allowTrailers c.versions c.reader.flatten).2.2 =
        c₂.reader.flatten := by rw [hflat]
    have halong := hr.along
    rw [hafter] at halong
    rcases (along_receive (along_of_reaches halong hreach₂) hrequest).2 q rfl with hbegins | hover
    · exact .inl hbegins
    -- Behind a method that was refused the reader has left the block for good.
    · by_cases hwhy : why = .badMethod
      · have hbehind := hr.behind hwhy
        rw [hafter] at hbehind
        have hrest := suffix_of_reaches hbehind hreach₂
        exact .inl (c'.reader.flatten.suffix_fromFirstLine.trans hrest)
      · exact .inr ⟨hwhy, hover⟩

/-- A request that begins in the header block does so at a line in front of the one that overrides
the method. -/
theorem begins_of_refused_header :
    let block := Utf8.encode "X: / HTTP/1.1\r\n_method: GET\r\n\r\n".toList
    ∃ h, HandsBehindRefusal {} (ofKept (Utf8.encode "BAD\r\n".toList ++ block)) .malformedLine h
        block [] [] block ∧
      ¬ block <:+ [] ∧ AtOverridden h.fields [] block := by
  intro block
  have hinside : ¬ block <:+ [] := by decide
  obtain ⟨h, hhands⟩ := handsBehindRefusal_header
  rcases begins_of_refused hhands with hbehind | ⟨-, hover⟩
  · exact absurd hbehind hinside
  · exact ⟨h, hhands, hinside, hover⟩

end HttpWire.Connection
