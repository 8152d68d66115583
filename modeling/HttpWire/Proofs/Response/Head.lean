import HttpWire.Connection.Outbox
import HttpWire.Proofs.Message.Token
import HttpWire.Proofs.Response.Lines
import HttpWire.Proofs.Text.Ascii

/-!
# The head of a reply

`Reply.headLines` lists the lines of a reply's head.  The names and values in it come from whoever
answers, and in part from the client, but their types and the check of the cookies keep ends of
lines out of them (`isLine_of_mem_headLines`).  So the head is cut into those lines and no others,
and the body begins behind the first empty line (`put_framed`).
-/

namespace HttpWire

open Reply (IsLine)

/-! ### Text without ends of lines -/

/-- A text in which no line ends. -/
def Text.IsUnbroken (t : Text) : Prop :=
  '\r' ∉ t ∧ '\n' ∉ t

instance (t : Text) : Decidable t.IsUnbroken :=
  inferInstanceAs (Decidable ('\r' ∉ t ∧ '\n' ∉ t))

namespace Text.IsUnbroken

variable {t u : Text}

theorem append (ht : t.IsUnbroken) (hu : u.IsUnbroken) : Text.IsUnbroken (t ++ u) := by
  constructor
  · rw [List.mem_append, not_or]
    exact ⟨ht.1, hu.1⟩
  · rw [List.mem_append, not_or]
    exact ⟨ht.2, hu.2⟩

theorem of_forall {p : Char → Bool} (h : ∀ c ∈ t, p c = true) (hr : p '\r' = false)
    (hn : p '\n' = false) : t.IsUnbroken := by
  constructor <;> intro hmem
  · exact Bool.false_ne_true (hr.symm.trans (h _ hmem))
  · exact Bool.false_ne_true (hn.symm.trans (h _ hmem))

/-- No line ends in the octets of the text. -/
theorem encode (h : t.IsUnbroken) :
    carriageReturn ∉ Utf8.encode t ∧ lineFeed ∉ Utf8.encode t :=
  ⟨mt (Utf8.mem_encode_iff (d := '\r') (by decide)).mp h.1,
    mt (Utf8.mem_encode_iff (d := '\n') (by decide)).mp h.2⟩

theorem ofNat (n : Nat) : Text.IsUnbroken (Text.ofNat n) :=
  of_forall (p := Char.isDigit) (fun _ hc => Nat.isDigit_of_mem_toDigits (by decide) (by decide) hc)
    rfl rfl

theorem of_isToken (h : isToken t = true) : t.IsUnbroken :=
  of_forall (all_of_isToken h) (by decide) (by decide)

theorem of_ofToken {v : Version} (h : Version.ofToken t = .ok v) : t.IsUnbroken :=
  ⟨fun hmem => (Version.isVisible_of_ofToken h _ hmem).2.1 rfl,
    fun hmem => (Version.isVisible_of_ofToken h _ hmem).2.2.1 rfl⟩

theorem phrase (s : Status) : s.phrase.IsUnbroken := by
  have hall : s.phrase.all (fun c => c != '\r' && c != '\n') = true := by
    rw [Status.phrase]
    unfold Status.phraseOf?
    split <;> decide
  exact of_forall (List.all_eq_true.mp hall) (by decide) (by decide)

end Text.IsUnbroken

/-- No line ends in a field value. -/
theorem FieldValue.unbroken (v : FieldValue) : carriageReturn ∉ v.bytes ∧ lineFeed ∉ v.bytes := by
  have hvalid := List.all_eq_true.mp v.valid
  constructor <;> intro hmem
  · exact absurd (hvalid _ hmem) (by decide)
  · exact absurd (hvalid _ hmem) (by decide)

namespace Reply

/-! ### The lines of a head -/

/-- A line with a name and a value. -/
def namedLine (name : FieldName) (value : Bytes) : Bytes :=
  Utf8.encode (name.text ++ ": ".toList) ++ value

/-- The cookies that are sent back. -/
def touched (r : Reply) : List Cookie :=
  (r.cookies.map fun jar => jar.cookies.filter (·.touched)).getD []

/-- The text of the status line. -/
def statusText (r : Reply) : Text :=
  (if r.protocol = [] then "HTTP/1.1".toList else r.protocol) ++
    ' ' :: Text.ofNat r.response.status.code ++ ' ' :: r.response.status.phrase

/-- The line that tells the length of the body. -/
def lengthText (r : Reply) : Bytes :=
  namedLine .contentLength (Utf8.encode (Text.ofNat r.response.body.length))

/-- The line that tells what becomes of the connection. -/
def connectionText (r : Reply) : Bytes :=
  namedLine .connection (Utf8.encode (if r.keepAlive then "keep-alive".toList else "close".toList))

/-- The lines of the head, in their order. -/
def headLines (r : Reply) : List Bytes :=
  Utf8.encode r.statusText ::
    ((r.response.headers.toList.filter fun f => f.name ≠ .contentLength ∧ f.name ≠ .connection).map
      fun f => namedLine f.name f.value.bytes) ++
    [r.lengthText, r.connectionText] ++
    r.touched.map fun c => namedLine .setCookie (Utf8.encode (CookieJar.setCookieText c))

/-- Some cookie that is sent back would end its line early. -/
def BreaksLine (r : Reply) : Prop :=
  ∃ c ∈ r.touched, '\r' ∈ CookieJar.setCookieText c ∨ '\n' ∈ CookieJar.setCookieText c

/-- The lines of that name. -/
def linesNamed (name : FieldName) (lines : List Bytes) : List Bytes :=
  lines.filter fun line => (Utf8.encode (name.text ++ [':'])).isPrefixOf line

variable {r : Reply} {name : FieldName}

theorem isLine_encode {t : Text} (hne : t ≠ []) (ht : t.IsUnbroken) : IsLine (Utf8.encode t) where
  ne_nil := by
    obtain ⟨c, t, rfl⟩ := List.exists_cons_of_ne_nil hne
    rw [Utf8.encode, List.flatMap_cons]
    intro h
    exact Utf8.encodeChar_ne_nil c (List.append_eq_nil_iff.mp h).1
  no_return := ht.encode.1
  no_feed := ht.encode.2

theorem isLine_namedLine (name : FieldName) {value : Bytes}
    (hvalue : carriageReturn ∉ value ∧ lineFeed ∉ value) : IsLine (namedLine name value) := by
  have hvalid := name.valid
  simp only [Bool.and_eq_true] at hvalid
  have hname : IsLine (Utf8.encode (name.text ++ ": ".toList)) :=
    isLine_encode (by simp) ((Text.IsUnbroken.of_isToken hvalid.1.1).append (by decide))
  refine ⟨?_, ?_, ?_⟩
  · rw [namedLine, Ne, List.append_eq_nil_iff, not_and]
    intro h
    exact absurd h hname.ne_nil
  · rw [namedLine, List.mem_append, not_or]
    exact ⟨hname.no_return, hvalue.1⟩
  · rw [namedLine, List.mem_append, not_or]
    exact ⟨hname.no_feed, hvalue.2⟩

theorem isLine_statusText {v : Version} (hv : Version.ofToken r.protocol = .ok v) :
    IsLine (Utf8.encode r.statusText) := by
  have hprotocol : Text.IsUnbroken (if r.protocol = [] then "HTTP/1.1".toList else r.protocol) := by
    split
    · decide
    · exact .of_ofToken hv
  have hspace : Text.IsUnbroken [' '] := by decide
  refine isLine_encode ?_ ?_
  · exact List.append_ne_nil_of_right_ne_nil _ (List.cons_ne_nil _ _)
  · exact (hprotocol.append (hspace.append (.ofNat _))).append (hspace.append (.phrase _))

/-- The lines of a head can be told apart. -/
theorem isLine_of_mem_headLines {v : Version} (hv : Version.ofToken r.protocol = .ok v)
    (h : ¬ r.BreaksLine) : ∀ line ∈ r.headLines, IsLine line := by
  have hcookie {c : Cookie} (hc : c ∈ r.touched) : (CookieJar.setCookieText c).IsUnbroken :=
    not_or.mp fun hbreak => h ⟨c, hc, hbreak⟩
  have hkept : Text.IsUnbroken (if r.keepAlive then "keep-alive".toList else "close".toList) := by
    split <;> decide
  intro line hline
  simp only [headLines, List.mem_append, List.mem_cons, List.mem_map, List.not_mem_nil,
    or_false] at hline
  rcases hline with ((rfl | ⟨f, -, rfl⟩) | rfl | rfl) | ⟨c, hc, rfl⟩
  · exact isLine_statusText hv
  · exact isLine_namedLine _ f.value.unbroken
  · exact isLine_namedLine _ (Text.IsUnbroken.ofNat _).encode
  · exact isLine_namedLine _ hkept.encode
  · exact isLine_namedLine _ (hcookie hc).encode

/-! ### What is written -/

theorem fieldLine_eq (name : FieldName) (value : Bytes) :
    fieldLine name.text value = namedLine name value ++ lineEnd := rfl

theorem hasLineBreak_iff {t : Text} : hasLineBreak t = true ↔ '\r' ∈ t ∨ '\n' ∈ t := by
  rw [hasLineBreak, List.any_eq_true]
  constructor
  · rintro ⟨c, hc, heq⟩
    rw [Bool.or_eq_true, beq_iff_eq, beq_iff_eq] at heq
    rcases heq with rfl | rfl
    · exact .inl hc
    · exact .inr hc
  · rintro (hc | hc)
    · exact ⟨_, hc, by decide⟩
    · exact ⟨_, hc, by decide⟩

/-- Cookies are written as lines if none of them has a line break in it. -/
theorem cookieLines_eq_ok {cookies : List Text} (h : ∀ t ∈ cookies, t.IsUnbroken) :
    cookieLines cookies =
      (.ok (), row (cookies.map fun t => namedLine .setCookie (Utf8.encode t))) := by
  induction cookies with
  | nil => rfl
  | cons t cookies ih =>
    obtain ⟨ht, hcookies⟩ := List.forall_mem_cons.mp h
    have hunbroken : ¬ hasLineBreak t = true := fun hbreak =>
      (hasLineBreak_iff.mp hbreak).elim ht.1 ht.2
    rw [cookieLines, if_neg hunbroken, ih hcookies]
    rfl

theorem exists_error_cookieLines {cookies : List Text}
    (h : ∃ t ∈ cookies, '\r' ∈ t ∨ '\n' ∈ t) : ∃ e, (cookieLines cookies).1 = .error e := by
  induction cookies with
  | nil => simp at h
  | cons t cookies ih =>
    rw [cookieLines]
    split
    · exact ⟨_, rfl⟩
    · next hunbroken =>
      obtain ⟨u, hu, hbreak⟩ := h
      rcases List.mem_cons.mp hu with rfl | hu
      · exact absurd (hasLineBreak_iff.mpr hbreak) hunbroken
      · exact ih ⟨u, hu, hbreak⟩

theorem setCookies_eq (r : Reply) : r.setCookies = r.touched.map CookieJar.setCookieText := by
  rw [setCookies, touched]
  cases r.cookies <;> rfl

theorem fixedLines_eq (r : Reply) :
    r.fixedLines ++ row (r.touched.map fun c =>
      namedLine .setCookie (Utf8.encode (CookieJar.setCookieText c))) = row r.headLines := by
  have hstatus : r.statusLine = Utf8.encode r.statusText ++ lineEnd := by
    rw [statusLine, statusText]
    cases r.protocol <;> rfl
  have hrow (a b : List Bytes) : row (a ++ b) = row a ++ row b := List.flatMap_append
  have hown : row ((r.response.headers.toList.filter fun f =>
      f.name ≠ .contentLength ∧ f.name ≠ .connection).map fun f =>
        namedLine f.name f.value.bytes) =
      r.ownFields.flatMap fun f => fieldLine f.name.text f.value.bytes := by
    rw [row, List.flatMap_map]
    rfl
  rw [headLines, hrow, hrow, ← List.singleton_append, hrow, hown, fixedLines, hstatus]
  simp only [row, List.flatMap_cons, List.flatMap_nil, List.append_nil, lengthLine, connectionLine,
    lengthText, connectionText, fieldLine_eq, List.append_assoc]

theorem encode_of_not_breaksLine (h : ¬ r.BreaksLine) :
    r.encode = (.ok (), row r.headLines ++ lineEnd ++ r.response.body) := by
  have hcookies : ∀ t ∈ r.setCookies, t.IsUnbroken := by
    intro t ht
    rw [setCookies_eq] at ht
    obtain ⟨c, hc, rfl⟩ := List.mem_map.mp ht
    exact not_or.mp fun hbreak => h ⟨c, hc, hbreak⟩
  rw [encode, encodeHead, cookieLines_eq_ok hcookies, ← fixedLines_eq, setCookies_eq, List.map_map]
  rfl

/-- A reply cannot be written only because of a cookie. -/
theorem exists_error_encode_iff : (∃ e, r.encode.1 = .error e) ↔ r.BreaksLine := by
  constructor
  · rintro ⟨e, he⟩
    refine Classical.byContradiction fun h => ?_
    rw [encode_of_not_breaksLine h] at he
    cases he
  · rintro ⟨c, hc, hbreak⟩
    have hmem : CookieJar.setCookieText c ∈ r.setCookies := by
      rw [setCookies_eq]
      exact List.mem_map_of_mem hc
    obtain ⟨e, he⟩ := exists_error_cookieLines ⟨_, hmem, hbreak⟩
    refine ⟨e, ?_⟩
    rw [encode, encodeHead, show cookieLines r.setCookies = (.error e, (cookieLines r.setCookies).2)
      from Prod.ext he rfl]

/-! ### Lines of a name -/

/-- A prefix up to a mark that stands nowhere in front of it is the same as another. -/
theorem eq_of_prefix_marked {mark : UInt8} {a b x : Bytes} (ha : mark ∉ a) (hb : mark ∉ b)
    (h : a ++ [mark] <+: b ++ mark :: x) : a = b := by
  induction a generalizing b with
  | nil =>
    cases b with
    | nil => rfl
    | cons c b =>
      obtain ⟨rfl, -⟩ := List.cons_prefix_cons.mp h
      exact absurd (List.mem_cons_self ..) hb
  | cons c a ih =>
    cases b with
    | nil =>
      obtain ⟨rfl, -⟩ := List.cons_prefix_cons.mp h
      exact absurd (List.mem_cons_self ..) ha
    | cons d b =>
      obtain ⟨rfl, hprefix⟩ := List.cons_prefix_cons.mp h
      rw [ih (not_or.mp (mt List.mem_cons.mpr ha)).2 (not_or.mp (mt List.mem_cons.mpr hb)).2 hprefix]

theorem colon_not_mem (name : FieldName) : 0x3A ∉ Utf8.encode name.text := by
  have hvalid := name.valid
  simp only [Bool.and_eq_true] at hvalid
  refine mt (Utf8.mem_encode_iff (d := ':') (by decide)).mp fun hmem => ?_
  exact absurd (all_of_isToken hvalid.1.1 _ hmem) (by decide)

/-- A line has the name that it was written with. -/
theorem isPrefixOf_namedLine_iff {other : FieldName} {value : Bytes} :
    (Utf8.encode (name.text ++ [':'])).isPrefixOf (namedLine other value) = true ↔
      other = name := by
  have hline : namedLine other value = Utf8.encode other.text ++ 0x3A :: (0x20 :: value) := by
    rw [namedLine, Utf8.encode_append, List.append_assoc]
    rfl
  have hname : Utf8.encode (name.text ++ [':']) = Utf8.encode name.text ++ [0x3A] := by
    rw [Utf8.encode_append]
    rfl
  rw [List.isPrefixOf_iff_prefix, hline, hname]
  constructor
  · intro h
    have htext := congrArg Utf8.decodeLossy
      (eq_of_prefix_marked (colon_not_mem name) (colon_not_mem other) h)
    rw [Utf8.decodeLossy_encode, Utf8.decodeLossy_encode] at htext
    obtain ⟨text, _⟩ := name
    obtain ⟨text', _⟩ := other
    obtain rfl : text = text' := htext
    rfl
  · rintro rfl
    exact ⟨0x20 :: value, by rw [List.append_assoc, List.singleton_append]⟩

theorem toLower_of_ofToken {t : Text} {v : Version} (h : Version.ofToken t = .ok v) :
    t = [] ∨ ∃ c u, t = c :: u ∧ c.toLower = 'h' := by
  cases t with
  | nil => exact .inl rfl
  | cons c u =>
    rw [Version.ofToken, if_neg (by simp)] at h
    split at h
    · next hname =>
      rw [Text.sameIgnoringCase, beq_iff_eq] at hname
      exact .inr ⟨c, u, rfl, (List.cons.inj hname).1⟩
    · cases h

/-- The status line is not taken for a line whose name begins with a `c`. -/
theorem not_isPrefixOf_statusText {v : Version} (hv : Version.ofToken r.protocol = .ok v)
    (hname : ∃ t, name.text = 'c' :: t) :
    (Utf8.encode (name.text ++ [':'])).isPrefixOf (Utf8.encode r.statusText) = false := by
  obtain ⟨t, ht⟩ := hname
  have hfirst : ∃ d u, r.statusText = d :: u ∧ d.toLower = 'h' := by
    rw [statusText]
    rcases toLower_of_ofToken hv with hnil | ⟨d, u, hcons, hd⟩
    · rw [hnil, if_pos rfl]
      exact ⟨'H', _, rfl, by decide⟩
    · rw [hcons, if_neg (List.cons_ne_nil d u)]
      exact ⟨d, _, rfl, hd⟩
  obtain ⟨d, u, hstatus, hd⟩ := hfirst
  rw [← Bool.not_eq_true, List.isPrefixOf_iff_prefix, ht, hstatus]
  rintro ⟨behind, h⟩
  -- Both would begin with the same octet, and so with the same character.
  have hmem : UInt8.ofNat 'c'.toNat ∈ Utf8.encodeChar d := by
    obtain ⟨b, bs, hb⟩ := List.exists_cons_of_ne_nil (Utf8.encodeChar_ne_nil d)
    have hhead : some (UInt8.ofNat 'c'.toNat) = some b := by
      have := congrArg List.head? h
      rw [Utf8.encode, Utf8.encode, List.flatMap_cons, hb] at this
      exact this
    rw [hb, Option.some.inj hhead]
    exact List.mem_cons_self ..
  obtain rfl := (Utf8.mem_encodeChar_iff (d := 'c') (by decide)).mp hmem
  exact absurd hd (by decide)

theorem linesNamed_append (name : FieldName) (a b : List Bytes) :
    linesNamed name (a ++ b) = linesNamed name a ++ linesNamed name b :=
  List.filter_append ..

theorem linesNamed_map {α : Type} {other : α → FieldName} {value : α → Bytes} {as : List α}
    (h : ∀ a ∈ as, other a ≠ name) :
    linesNamed name (as.map fun a => namedLine (other a) (value a)) = [] := by
  rw [linesNamed, List.filter_eq_nil_iff]
  intro line hline
  obtain ⟨a, ha, rfl⟩ := List.mem_map.mp hline
  exact mt isPrefixOf_namedLine_iff.mp (h a ha)

/-- Neither the response nor the cookies tell the length or what becomes of the connection. -/
theorem linesNamed_headLines {v : Version} (hv : Version.ofToken r.protocol = .ok v)
    (hname : name = .contentLength ∨ name = .connection) :
    linesNamed name r.headLines = linesNamed name [r.lengthText, r.connectionText] := by
  have hown : ∀ f ∈ r.response.headers.toList.filter fun f =>
      f.name ≠ .contentLength ∧ f.name ≠ .connection, f.name ≠ name := by
    intro f hf
    obtain ⟨hlength, hconnection⟩ := of_decide_eq_true (List.mem_filter.mp hf).2
    rcases hname with rfl | rfl
    · exact hlength
    · exact hconnection
  have hcookie : ∀ c ∈ r.touched, FieldName.setCookie ≠ name := by
    rintro - -
    rcases hname with rfl | rfl <;> decide
  have hstatus : linesNamed name [Utf8.encode r.statusText] = [] := by
    have hfirst : ∃ t, name.text = 'c' :: t := by
      rcases hname with rfl | rfl <;> exact ⟨_, rfl⟩
    rw [linesNamed, List.filter_eq_nil_iff, List.forall_mem_singleton,
      not_isPrefixOf_statusText hv hfirst]
    exact Bool.false_ne_true
  rw [headLines, ← List.singleton_append, linesNamed_append, linesNamed_append, linesNamed_append,
    hstatus, linesNamed_map hown, linesNamed_map hcookie, List.append_nil]
  rfl

/-- One line of a head tells the length. -/
theorem linesNamed_contentLength {v : Version} (hv : Version.ofToken r.protocol = .ok v) :
    linesNamed .contentLength r.headLines = [r.lengthText] := by
  rw [linesNamed_headLines hv (.inl rfl), lengthText, connectionText, linesNamed,
    List.filter_cons_of_pos (isPrefixOf_namedLine_iff.mpr rfl),
    List.filter_cons_of_neg (mt isPrefixOf_namedLine_iff.mp (by decide)), List.filter_nil]

/-- One line of a head tells what becomes of the connection. -/
theorem linesNamed_connection {v : Version} (hv : Version.ofToken r.protocol = .ok v) :
    linesNamed .connection r.headLines = [r.connectionText] := by
  rw [linesNamed_headLines hv (.inr rfl), lengthText, connectionText, linesNamed,
    List.filter_cons_of_neg (mt isPrefixOf_namedLine_iff.mp (by decide)),
    List.filter_cons_of_pos (isPrefixOf_namedLine_iff.mpr rfl), List.filter_nil]

/-! ### The frame -/

/-- **A reply cannot be broken out of.**  Whatever its response and its cookies are, it can be
written unless a cookie that is sent back has a line break in it.  Its octets are then put behind
what waits already: a front, the first empty line in them, and the body.  The front is cut into the
lines of the head, in none of which a line ends, and one of which tells the length and one what
becomes of the connection. -/
theorem put_framed (r : Reply) {v : Version} (hv : Version.ofToken r.protocol = .ok v)
    (box : Outbox) :
    ((∃ e, (box.put r).1 = .error e) ↔ r.BreaksLine) ∧
      (¬ r.BreaksLine → ∃ front,
        box.put r = (.ok (), ⟨box.waiting ++ (front ++ emptyLine ++ r.response.body)⟩) ∧
        (∀ i, emptyLine <+: (front ++ emptyLine ++ r.response.body).drop i → front.length ≤ i) ∧
        pieces front = r.headLines ∧
        (∀ line ∈ r.headLines, carriageReturn ∉ line ∧ lineFeed ∉ line) ∧
        linesNamed .contentLength r.headLines = [r.lengthText] ∧
        linesNamed .connection r.headLines = [r.connectionText]) := by
  refine ⟨exists_error_encode_iff, fun hbreak => ?_⟩
  have hlines := isLine_of_mem_headLines hv hbreak
  obtain ⟨front, hfront, hpieces⟩ := exists_row_eq hlines (List.cons_ne_nil _ _)
  have hoctets : row r.headLines ++ lineEnd ++ r.response.body =
      front ++ emptyLine ++ r.response.body := by
    rw [hfront, emptyLine, List.append_assoc front]
  refine ⟨front, ?_, ?_, hpieces, ?_, linesNamed_contentLength hv, linesNamed_connection hv⟩
  · rw [Outbox.put, encode_of_not_breaksLine hbreak, hoctets]
  · intro i hi
    rw [← hoctets, List.append_assoc] at hi
    have hle := length_row_le hlines hi
    rw [hfront, List.length_append] at hle
    exact Nat.le_of_add_le_add_right hle
  · exact fun line hline => ⟨(hlines line hline).no_return, (hlines line hline).no_feed⟩

/-- A reply whose response would tell another length, with a cookie that is set and one that is
dropped, behind octets that wait already. -/
theorem put_framed_cookies :
    let jar := ((CookieJar.mk []).set "a".toList "\t1".toList).remove "b".toList
    let response : Response :=
      { status := .notFound
        headers := ⟨[⟨.contentLength, ⟨Utf8.encode "999".toList, by decide⟩⟩,
          ⟨.te, ⟨Utf8.encode "b\t".toList, by decide⟩⟩]⟩
        body := Utf8.encode "\r\n\r\n".toList }
    let r : Reply :=
      { protocol := "http/1.0".toList, response, keepAlive := false, cookies := some jar }
    Version.ofToken r.protocol = .ok ⟨1, 0⟩ ∧ ¬ r.BreaksLine ∧ ∃ front,
      Outbox.put r ⟨[0x2E]⟩ =
        (.ok (), ⟨0x2E :: (front ++ Utf8.encode "\r\n\r\n\r\n\r\n".toList)⟩) ∧
      (∀ i, emptyLine <+: (front ++ emptyLine ++ r.response.body).drop i → front.length ≤ i) ∧
      pieces front = ["http/1.0 404 Not Found", "te: b\t", "content-length: 4",
        "connection: close", "set-cookie: a=\t1", "set-cookie: b=; Max-Age=0"].map
          fun line => Utf8.encode line.toList := by
  intro jar response r
  have hv : Version.ofToken r.protocol = .ok ⟨1, 0⟩ := rfl
  have hbreak : ¬ r.BreaksLine := by
    rintro ⟨c, hc, hmem⟩
    have hall : r.touched.all (fun c => !hasLineBreak (CookieJar.setCookieText c)) = true := by
      decide
    have hc := List.all_eq_true.mp hall c hc
    rw [hasLineBreak_iff.mpr hmem] at hc
    cases hc
  obtain ⟨-, h⟩ := put_framed r hv ⟨[0x2E]⟩
  obtain ⟨front, hput, hfirst, hpieces, -⟩ := h hbreak
  refine ⟨hv, hbreak, front, ?_, hfirst, hpieces.trans (by decide)⟩
  rw [hput, List.append_assoc]
  rfl

end Reply

end HttpWire
