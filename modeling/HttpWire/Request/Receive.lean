import HttpWire.Body.Chunked
import HttpWire.Request.Basic
import HttpWire.Version.Resolver

/-!
# Receiving a request

A request is read in three steps: the request line, behind any empty lines; the header block; and
the body, whose length the headers tell.  The request line is cut at its first and its last space
into method, target and protocol token, and a `_method` field overrides the method.  The body has
the announced length if that is positive, is chunked if the transfer coding says so, and is empty
otherwise.

What does not look like a request at all is no error: the outcome is then `nothing`, with the
reason.  Faults behind an acceptable request line are errors.
-/

namespace HttpWire

/-- Why no request was received although nothing failed. -/
inductive Absence
  /-- The input ended before a request line. -/
  | endOfInput
  /-- The request line has no two spaces. -/
  | malformedLine
  /-- The protocol token names no version. -/
  | unsupportedProtocol (error : VersionError)
  /-- The method is no token. -/
  | badMethod
deriving DecidableEq

/-- What looking for a request came to. -/
inductive Received
  | request (r : Request)
  | nothing (why : Absence)
deriving DecidableEq

/-! ### The request line -/

/-- The three parts of a request line. -/
structure RequestLine where
  method : Text
  target : Text
  protocol : Text
deriving DecidableEq

/-- Cuts a request line at its first and its last space. -/
def RequestLine.ofText? (line : Text) : Option RequestLine :=
  match splitFirst (· == ' ') line with
  | none => none
  | some (method, _, behind) =>
    match splitLast (· == ' ') behind with
    | none => none
    | some (target, _, protocol) => some { method, target := Text.trim target, protocol }

/-- The method that a request line and header fields make. -/
def effectiveMethod? (method : Text) (h : Headers) : Option Method :=
  match h.get? .methodOverride with
  | none => Method.ofText? method
  | some value => Method.ofText? (Text.upper value.textLossy)

variable {ρ : Type} [ByteReader ρ]

/-- The first line that is not empty. -/
def firstLine (r : ρ) : Except (Stop ReceiveError) (Option Text) × ρ :=
  match _h : ByteReader.readLine r with
  | (.ok (some []), r') => firstLine r'
  | answer => answer
termination_by ByteReader.remaining r
decreasing_by exact ByteReader.remaining_readLine_lt _h

/-! ### The body -/

/-- A length of 64 bits: decimal digits behind an optional plus sign. -/
def lengthOfText? (t : Text) : Option Nat :=
  let digits := match t with
    | '+' :: rest => rest
    | _ => t
  match Text.toNat? digits with
  | none => none
  | some n => if n < UInt64.size then some n else none

/-- The length that the headers announce; zero if they announce none. -/
def announcedLength (h : Headers) : Except LengthFault Nat :=
  match h.get? .contentLength with
  | none => .ok 0
  | some value =>
    match (value.text?.map Text.trim).bind lengthOfText? with
    | none => .error (.notALength value)
    | some n => .ok n

/-- Reads a chunked body: its payload and the trailers that are kept. -/
def receiveChunked (keepTrailers : Bool) (r : ρ) :
    Except (Stop ReceiveError) (Bytes × Headers) × ρ :=
  match ChunkedReader.readToEnd { inner := r, keepTrailers } with
  | (.error e, c) => (.error e, c.inner)
  | (.ok payload, c) => (.ok (payload, c.trailers), c.inner)

/-- Reads the octets of a body, and adds the trailers of a chunked one to the headers if the
client accepts trailers and they are allowed. -/
def receiveBody (allowTrailers : Bool) (h : Headers) (r : ρ) :
    Except (Stop ReceiveError) (Bytes × Headers) × ρ :=
  match announcedLength h with
  | .error e => (.error (.fault (.contentLength e)), r)
  | .ok (n + 1) =>
    -- A length wins over a transfer coding.
    match ByteReader.readExact (n + 1) r with
    | (.error e, r') => (.error e, r')
    | (.ok raw, r') => (.ok (raw, h), r')
  | .ok 0 =>
    if h.listsToken .transferEncoding "chunked".toList then
      match receiveChunked (allowTrailers && h.listsToken .te "trailers".toList) r with
      | (.error e, r') => (.error e, r')
      | (.ok (payload, trailers), r') => (.ok (payload, trailers.toList.foldl Headers.append h), r')
    else (.ok ([], h), r)

/-! ### The request -/

/-- Reads what stands behind a request line with an acceptable protocol token. -/
def receiveBehind (allowTrailers : Bool) (line : RequestLine) (version : Version) (r : ρ) :
    Except (Stop ReceiveError) Received × ρ :=
  match Headers.readBlock 0 {} r with
  | (.error e, _, r') => (.error e, r')
  | (.ok _, h, r') =>
    match effectiveMethod? line.method h with
    | none => (.ok (.nothing .badMethod), r')
    | some method =>
      match receiveBody allowTrailers h r' with
      | (.error e, r'') => (.error e, r'')
      | (.ok (raw, h'), r'') =>
        let body := Body.ofBytes raw h'
        (.ok (.request (Request.ofTarget method line.target line.protocol version h' body)), r'')

/-- Receives the next request. -/
def receive {υ : Type} [VersionResolver υ] (allowTrailers : Bool) (versions : υ) (r : ρ) :
    Except (Stop ReceiveError) Received × υ × ρ :=
  match firstLine r with
  | (.error e, r') => (.error e, versions, r')
  | (.ok none, r') => (.ok (.nothing .endOfInput), versions, r')
  | (.ok (some line), r') =>
    match RequestLine.ofText? line with
    | none => (.ok (.nothing .malformedLine), versions, r')
    | some line =>
      match VersionResolver.resolve line.protocol versions with
      | (.error e, versions) => (.ok (.nothing (.unsupportedProtocol e)), versions, r')
      | (.ok version, versions) =>
        let (received, r'') := receiveBehind allowTrailers line version r'
        (received, versions, r'')

/-! ### What a request takes -/

theorem remaining_firstLine_le (r : ρ) :
    ByteReader.remaining (firstLine r).2 ≤ ByteReader.remaining r := by
  fun_induction firstLine r with
  | case1 r r' h ih => exact Nat.le_trans ih (Nat.le_of_lt (ByteReader.remaining_readLine_lt h))
  | case2 r => exact ByteReader.remaining_readLine_le r

theorem remaining_firstLine_lt {r r' : ρ} {line : Text}
    (h : firstLine r = (.ok (some line), r')) :
    ByteReader.remaining r' < ByteReader.remaining r := by
  fun_induction firstLine r with
  | case1 r r₁ hl ih => exact Nat.lt_trans (ih h) (ByteReader.remaining_readLine_lt hl)
  | case2 r => exact ByteReader.remaining_readLine_lt h

theorem remaining_receiveBody_le (allowTrailers : Bool) (h : Headers) (r : ρ) :
    ByteReader.remaining (receiveBody allowTrailers h r).2 ≤ ByteReader.remaining r := by
  unfold receiveBody
  split
  · exact Nat.le_refl _
  · next n _ =>
    have := ByteReader.remaining_readExact_le (n + 1) r
    split <;> next hr => simpa [hr] using this
  · split
    · have hc (keep : Bool) :
          ByteReader.remaining (receiveChunked keep r).2 ≤ ByteReader.remaining r := by
        have h := ChunkedReader.remaining_takeToEnd_le []
          { inner := r, keepTrailers := keep, lastTaken := 0 }
        unfold receiveChunked
        split <;> next hr =>
          rw [show ChunkedReader.takeToEnd [] _ = _ from hr] at h
          simp only [ChunkedReader.remaining, List.length_nil] at h ⊢
          omega
      have := hc (allowTrailers && h.listsToken .te "trailers".toList)
      split <;> next hr =>
        rw [hr] at this
        exact this
    · exact Nat.le_refl _

theorem remaining_receiveBehind_le (allowTrailers : Bool) (line : RequestLine) (version : Version)
    (r : ρ) :
    ByteReader.remaining (receiveBehind allowTrailers line version r).2 ≤
      ByteReader.remaining r := by
  have hb := Headers.remaining_readBlock_le 0 {} r
  unfold receiveBehind
  split
  · next hr => simpa [hr] using hb
  · next h r' hr =>
    rw [hr] at hb
    split
    · exact hb
    · have := remaining_receiveBody_le allowTrailers h r'
      split <;> next hr' =>
        rw [hr'] at this
        exact Nat.le_trans this hb

/-- Looking for a request takes nothing back. -/
theorem remaining_receive_le {υ : Type} [VersionResolver υ] (allowTrailers : Bool) (versions : υ)
    (r : ρ) :
    ByteReader.remaining (receive allowTrailers versions r).2.2 ≤ ByteReader.remaining r := by
  have hl := remaining_firstLine_le r
  unfold receive
  split
  · next hr => simpa [hr] using hl
  · next hr => simpa [hr] using hl
  · next hr =>
    rw [hr] at hl
    split
    · exact hl
    · split
      · exact hl
      · exact Nat.le_trans (remaining_receiveBehind_le _ _ _ _) hl

/-- A request that was received has taken something. -/
theorem remaining_receive_lt {υ : Type} [VersionResolver υ] {allowTrailers : Bool}
    {versions versions' : υ} {r r' : ρ} {request : Request}
    (h : receive allowTrailers versions r = (.ok (.request request), versions', r')) :
    ByteReader.remaining r' < ByteReader.remaining r := by
  unfold receive at h
  split at h
  · simp at h
  · simp at h
  · next hr =>
    have hl := remaining_firstLine_lt hr
    split at h
    · simp at h
    · split at h
      · simp at h
      · simp only [Prod.mk.injEq] at h
        rw [← h.2.2]
        exact Nat.lt_of_le_of_lt (remaining_receiveBehind_le _ _ _ _) hl

end HttpWire
