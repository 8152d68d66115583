import HttpWire.Proofs.MediaType
import HttpWire.Proofs.Message.Basic
import HttpWire.Proofs.Request.Target

/-!
# What messages mean

`Message.Means` says of a request that a message means it, part by part and without a look at how
requests are read: the path and the query are written in the target, the version in the protocol
token, the header fields in the lines and perhaps the trailers, and the body in the octets that the
message carries, as the first media type among the fields tells.

A message means one request, and that is `Message.request` (`Message.means_iff`).
-/

namespace HttpWire

/-! ### Bodies -/

/-- Octets under header fields hold a body.  It is multipart if the first field for the media type
says a text that writes a boundary, and a form otherwise. -/
inductive Body.Holds (h : Headers) : Body → Bytes → Prop
  | empty : Holds h .empty []
  | multipart {raw : Bytes} {v : FieldValue} {t boundary : Text} (hne : raw ≠ [])
    (hfirst : h.First .contentType v) (hsaid : v.Says t)
    (hwrites : MediaType.WritesBoundary boundary t) : Holds h (.multipart raw boundary) raw
  | form {raw : Bytes} (hne : raw ≠ [])
    (hno : ∀ v t boundary, h.First .contentType v → v.Says t →
      ¬ MediaType.WritesBoundary boundary t) : Holds h (.form raw) raw

/-- The boundary that header fields announce. -/
theorem Body.exists_writesBoundary_iff {h : Headers} {boundary : Text} :
    (∃ v t, h.First .contentType v ∧ v.Says t ∧ MediaType.WritesBoundary boundary t) ↔
      (((h.get? .contentType).bind FieldValue.text?).bind MediaType.ofText?).bind
        MediaType.multipartBoundary? = some boundary := by
  simp only [Headers.first_iff, ← FieldValue.text?_eq_some_iff, MediaType.writesBoundary_iff,
    Option.bind_assoc, Option.bind_eq_some_iff]
  constructor
  · rintro ⟨v, t, hv, ht, m, hm, hboundary⟩
    exact ⟨v, hv, t, ht, m, hm, hboundary⟩
  · rintro ⟨v, hv, t, ht, m, hm, hboundary⟩
    exact ⟨v, t, hv, ht, m, hm, hboundary⟩

theorem Body.ofBytes_of_ne_nil {h : Headers} {raw : Bytes} (hne : raw ≠ []) :
    ofBytes raw h =
      ((((h.get? .contentType).bind FieldValue.text?).bind MediaType.ofText?).bind
        MediaType.multipartBoundary?).elim (.form raw) (.multipart raw) := by
  rw [ofBytes, if_neg (by rwa [List.isEmpty_iff])]
  cases ((h.get? .contentType).bind FieldValue.text?).bind MediaType.ofText? with
  | none => rfl
  | some type =>
    simp only [Option.bind_some]
    cases type.multipartBoundary? <;> rfl

/-- **The body that octets hold is the one that is made of them.** -/
theorem Body.holds_iff {h : Headers} {b : Body} {raw : Bytes} :
    b.Holds h raw ↔ b = ofBytes raw h := by
  constructor
  · rintro (_ | ⟨hne, hfirst, hsaid, hwrites⟩ | ⟨hne, hno⟩)
    · rfl
    · rw [ofBytes_of_ne_nil hne, exists_writesBoundary_iff.mp ⟨_, _, hfirst, hsaid, hwrites⟩]
      rfl
    · have hnone := Option.eq_none_iff_forall_ne_some.mpr fun boundary hsome => by
        obtain ⟨v, t, hfirst, hsaid, hwrites⟩ := exists_writesBoundary_iff.mpr hsome
        exact hno v t boundary hfirst hsaid hwrites
      rw [ofBytes_of_ne_nil hne, hnone]
      rfl
  · rintro rfl
    by_cases hne : raw = []
    · subst hne
      exact .empty
    · rw [ofBytes_of_ne_nil hne]
      cases hboundary : (((h.get? .contentType).bind FieldValue.text?).bind
          MediaType.ofText?).bind MediaType.multipartBoundary? with
      | none =>
        refine .form hne fun v t boundary hfirst hsaid hwrites => ?_
        rw [exists_writesBoundary_iff.mp ⟨v, t, hfirst, hsaid, hwrites⟩] at hboundary
        cases hboundary
      | some boundary =>
        obtain ⟨v, t, hfirst, hsaid, hwrites⟩ := exists_writesBoundary_iff.mpr hboundary
        exact .multipart hne hfirst hsaid hwrites

/-! ### Messages -/

namespace Message

/-- A message means a request. -/
structure Means (m : Message) (allowTrailers : Bool) (q : Request) : Prop where
  method : q.method = m.effectiveMethod
  target : q.Targets m.target
  protocol : q.protocol = m.protocol
  version : Version.Denotes m.protocol q.version
  /-- The fields are those of the lines, and behind them the trailers, listed by their names, if
  they are kept. -/
  headers : ∃ kept, q.headers.fields = m.lines.map HeaderLine.field ++ kept ∧
    (m.KeepsTrailers allowTrailers → Headers.Grouped m.trailers kept) ∧
    (¬ m.KeepsTrailers allowTrailers → kept = [])
  body : q.body.Holds q.headers m.payload

variable {m : Message} {allowTrailers : Bool} {q : Request}

theorem headers_eq_iff {h : Headers} :
    (∃ kept, h.fields = m.lines.map HeaderLine.field ++ kept ∧
      (m.KeepsTrailers allowTrailers → Headers.Grouped m.trailers kept) ∧
      (¬ m.KeepsTrailers allowTrailers → kept = [])) ↔ h = m.headers allowTrailers := by
  obtain ⟨fs⟩ := h
  rw [headers, Headers.foldl_append, HeaderLine.headers]
  by_cases hkeeps : m.KeepsTrailers allowTrailers
  · rw [if_pos hkeeps]
    constructor
    · rintro ⟨kept, rfl, hgrouped, -⟩
      rw [Headers.grouped_iff.mp (hgrouped hkeeps)]
    · rintro heq
      obtain rfl := congrArg Headers.fields heq
      exact ⟨_, rfl, fun _ => Headers.grouped_iff.mpr rfl, fun hno => absurd hkeeps hno⟩
  · rw [if_neg hkeeps]
    constructor
    · rintro ⟨kept, rfl, -, hnil⟩
      rw [hnil hkeeps, List.append_nil]
    · rintro heq
      obtain rfl := congrArg Headers.fields heq
      exact ⟨[], (List.append_nil _).symm, fun hyes => absurd hyes hkeeps, fun _ => rfl⟩

/-- **A message means one request.** -/
theorem means_iff : m.Means allowTrailers q ↔ q = m.request allowTrailers := by
  have htargets : (m.request allowTrailers).Targets m.target := Request.targets_ofTarget ..
  have hdenotes : Version.Denotes m.protocol m.version := by
    rcases Version.ofToken_cases m.protocol with ⟨v, hv, hdenotes⟩ | ⟨hrejected, -⟩
    · rw [m.accepted] at hv
      obtain rfl := Except.ok.inj hv
      exact hdenotes
    · rw [m.accepted] at hrejected
      cases hrejected
  constructor
  · intro h
    have hheaders := headers_eq_iff.mp h.headers
    obtain ⟨hpath, hquery⟩ := h.target.unique htargets
    have hbody := Body.holds_iff.mp h.body
    rw [hheaders] at hbody
    obtain ⟨method, path, query, headers, protocol, version, body⟩ := q
    exact Request.mk.injEq .. |>.mpr ⟨h.method, hpath, hquery, hheaders, h.protocol,
      h.version.unique hdenotes, hbody⟩
  · rintro rfl
    exact
      { method := rfl
        target := htargets
        protocol := rfl
        version := hdenotes
        headers := headers_eq_iff.mpr rfl
        body := Body.holds_iff.mpr rfl }

/-- Messages mean one row of requests. -/
theorem forall₂_means_iff {messages : List Message} {requests : List Request} :
    List.Forall₂ (Means · allowTrailers) messages requests ↔
      requests = messages.map (·.request allowTrailers) := by
  rw [eq_comm, ← List.forall₂_eq_eq_eq, List.forall₂_map_left_iff]
  constructor
  · exact List.Forall₂.imp fun _ _ h => (means_iff.mp h).symm
  · exact List.Forall₂.imp fun _ _ h => means_iff.mpr h.symm

end Message

end HttpWire
