import HttpWire.Proofs.Field.Line
import HttpWire.Proofs.Headers
import HttpWire.Proofs.Request.Decided
import HttpWire.Proofs.Request.Line
import HttpWire.Reading.Flat

/-!
# What is left behind a message that is refused

A message may be refused without an error for its request line, for its protocol token, or for its
method.  In the first two cases the reader is left behind the request line, in the last behind the
header block.  The body is never skipped, so what stands in it may be received later as a request.

The header block is different.  A header line cannot begin a request by itself, because the text in
front of its first space has the colon of the line in it or in front of it, and so is no method
(`not_isToken_of_ofLine`).  Only a `_method` field further down in the same block can make up for
that (`AtOverridden`).  So a reader that is left in front of the block goes along it line by line,
and begins a request at such a line or behind the block (`along_receive`).
-/

namespace HttpWire

/-! ### Header lines are no request lines -/

/-- What stands in front of the first space of a header line is no token. -/
theorem not_isToken_of_ofLine {line before behind : Text} {sep : Char} {f : Field}
    (h : Field.ofLine line = .ok f)
    (hcut : splitFirst (· == ' ') line = some (before, sep, behind)) : isToken before = false := by
  obtain ⟨name, value, rfl, hname, -⟩ := Field.ofLine_eq_ok_iff.mp h
  have hspace : ∀ c ∈ name ++ [':'], (c == ' ') = false := by
    intro c hmem
    rw [beq_eq_false_iff_ne]
    rcases List.mem_append.mp hmem with hmem | hmem
    · exact FieldName.ne_of_mem_spelling hname hmem (by decide)
    · rw [List.mem_singleton.mp hmem]
      decide
  -- So the first space stands behind the colon.
  rw [← List.singleton_append, ← List.append_assoc,
    splitFirst_append_of_none (splitFirst_eq_none_iff.mpr hspace)] at hcut
  obtain ⟨⟨before', sep', behind'⟩, -, hbefore⟩ := Option.map_eq_some_iff.mp hcut
  obtain rfl : name ++ [':'] ++ before' = before := congrArg Prod.fst hbefore
  rw [Bool.eq_false_iff]
  intro htoken
  have hmem : ':' ∈ name ++ [':'] ++ before' := by simp
  exact absurd (all_of_isToken htoken _ hmem) (by decide)

/-! ### Header blocks -/

section

variable {ρ : Type} [ByteReader ρ]

/-- A header block with those fields leads from one reader to another. -/
inductive HeaderBlock : ρ → List Field → ρ → Prop
  | done {r r'} (hl : ByteReader.readLine r = (.ok (some []), r')) : HeaderBlock r [] r'
  | field {r r₁ r' line f fs} (hl : ByteReader.readLine r = (.ok (some line), r₁))
      (hne : line ≠ []) (hf : Field.ofLine line = .ok f) (hb : HeaderBlock r₁ fs r') :
      HeaderBlock r (f :: fs) r'

theorem HeaderBlock.readBlock_eq {r r' : ρ} {fs : List Field} (hb : HeaderBlock r fs r')
    (taken : Nat) (h : Headers) :
    ∃ n, Headers.readBlock taken h r = (.ok n, ⟨h.fields ++ fs⟩, r') := by
  induction hb generalizing taken h with
  | done hl =>
    rw [Headers.readBlock_eq, hl, List.append_nil]
    exact ⟨_, rfl⟩
  | @field r r₁ r' line f fs hl hne hf hb ih =>
    obtain ⟨n, hn⟩ := ih (taken + ByteReader.lastTaken r₁) (h.append f)
    obtain ⟨c, cs, rfl⟩ := List.exists_cons_of_ne_nil hne
    refine ⟨n, ?_⟩
    rw [Headers.readBlock_eq, hl]
    simp only [hf]
    rw [hn, Headers.append, List.append_assoc, List.singleton_append]

/-- What is read without an error is a header block. -/
theorem headerBlock_of_readBlock {taken n : Nat} {h h' : Headers} {r r' : ρ}
    (hr : Headers.readBlock taken h r = (.ok n, h', r')) :
    ∃ fs, h' = ⟨h.fields ++ fs⟩ ∧ HeaderBlock r fs r' := by
  fun_induction Headers.readBlock taken h r with
  | case1 => cases hr
  | case2 => cases hr
  | case3 taken h r r₁ hl =>
    cases hr
    refine ⟨[], ?_, .done hl⟩
    rw [List.append_nil]
  | case4 => cases hr
  | case5 taken h r line r₁ hne hl f hf ih =>
    obtain ⟨fs, hh, hb⟩ := ih hr
    refine ⟨f :: fs, ?_, .field hl hne hf hb⟩
    rw [hh, Headers.append, List.append_assoc, List.singleton_append]

end

/-! ### Where a request begins -/

namespace FlatReader

/-- The octets from the first line on that is not empty. -/
def fromFirstLine (r : FlatReader) : Bytes :=
  match _h : r.readLine with
  | (.ok (some []), r') => fromFirstLine r'
  | _ => r.rest
termination_by r.rest.length
decreasing_by exact length_rest_readLine_lt _h

theorem fromFirstLine_eq (r : FlatReader) :
    r.fromFirstLine =
      match ByteReader.readLine r with
      | (.ok (some []), r') => r'.fromFirstLine
      | _ => r.rest := by
  rw [fromFirstLine, show ByteReader.readLine r = r.readLine from rfl]
  split <;> simp_all

theorem suffix_fromFirstLine (r : FlatReader) : r.fromFirstLine <:+ r.rest := by
  fun_induction fromFirstLine r with
  | case1 r r' h ih =>
    have hsuffix := r.suffix_readLine
    rw [h] at hsuffix
    exact ih.trans hsuffix
  | case2 r => exact List.suffix_rfl

end FlatReader

/-! ### What receiving does to a block -/

section

variable {ρ υ : Type} [ByteReader ρ] [VersionResolver υ] {allowTrailers : Bool}
  {versions versions' : υ} {r r₁ r₂ r' : ρ} {line : Text} {n : Nat} {h : Headers} {why : Absence}
  {q : Request}

/-- Where the reader is left behind a message that is refused. -/
theorem reader_of_refused (hline : firstLine r = (.ok (some line), r₁))
    (hblock : Headers.readBlock 0 {} r₁ = (.ok n, h, r₂))
    (hr : receive allowTrailers versions r = (.ok (.nothing why), versions', r')) :
    r' = if why = .badMethod then r₂ else r₁ := by
  rw [receive, hline] at hr
  simp only at hr
  cases hparts : RequestLine.ofText? line with
  | none =>
    rw [hparts] at hr
    cases hr
    rfl
  | some parts =>
    rw [hparts] at hr
    simp only at hr
    rcases hversion : VersionResolver.resolve parts.protocol versions with
      ⟨e | version, versions₁⟩
    · rw [hversion] at hr
      cases hr
      rfl
    · simp only [hversion, receiveBehind, hblock] at hr
      cases hmethod : effectiveMethod? parts.method h with
      | none =>
        rw [hmethod] at hr
        cases hr
        rfl
      | some method =>
        rcases hbody : receiveBody allowTrailers h r₂ with ⟨e | ⟨raw, h'⟩, r₃⟩
        · simp only [hmethod, hbody] at hr
          cases hr
        · simp only [hmethod, hbody] at hr
          cases hr

/-- A request has a method, and its body is read behind its header block. -/
theorem effectiveMethod?_of_request (hline : firstLine r = (.ok (some line), r₁))
    (hblock : Headers.readBlock 0 {} r₁ = (.ok n, h, r₂))
    (hr : receive allowTrailers versions r = (.ok (.request q), versions', r')) :
    ∃ parts, RequestLine.ofText? line = some parts ∧ effectiveMethod? parts.method h ≠ none ∧
      r' = (receiveBody allowTrailers h r₂).2 := by
  obtain ⟨text, parts, version, r₃, hline', hparts, -, hbehind⟩ := receive_eq_request_iff.mp hr
  cases hline.symm.trans hline'
  refine ⟨parts, hparts, ?_⟩
  simp only [receiveBehind, hblock] at hbehind
  cases hmethod : effectiveMethod? parts.method h with
  | none =>
    rw [hmethod] at hbehind
    cases hbehind
  | some method =>
    refine ⟨Option.some_ne_none method, ?_⟩
    rcases hbody : receiveBody allowTrailers h r₂ with ⟨e | ⟨raw, h'⟩, r₄⟩
    · simp only [hmethod, hbody] at hbehind
      cases hbehind
    · simp only [hmethod, hbody] at hbehind
      cases hbehind
      rfl

end

/-- The method of a request line stands in front of the first space. -/
theorem exists_splitFirst_eq {line : Text} {parts : RequestLine}
    (h : RequestLine.ofText? line = some parts) :
    ∃ sep behind, splitFirst (· == ' ') line = some (parts.method, sep, behind) := by
  obtain ⟨target, rfl, hmethod, -⟩ := RequestLine.ofText?_eq_some_iff.mp h
  exact ⟨' ', _, splitFirst_beq_append_cons hmethod⟩

/-- Only a field that overrides it makes up for a method that is no token. -/
theorem exists_override {method : Text} {fs : List Field} (htoken : isToken method = false)
    (hmethod : effectiveMethod? method ⟨fs⟩ ≠ none) : ∃ f ∈ fs, f.name = .methodOverride := by
  by_cases hover : ∃ f ∈ fs, f.name = .methodOverride
  · exact hover
  · have hfs : ∀ f ∈ fs, f.name ≠ .methodOverride := by
      intro f hf hname
      exact hover ⟨f, hf, hname⟩
    have hnone : effectiveMethod? method ⟨fs⟩ = none := by
      rw [effectiveMethod?, Headers.get?_eq_none_iff.mpr hfs]
      exact dif_neg (by rw [htoken]; exact Bool.false_ne_true)
    exact absurd hnone hmethod

/-! ### In a header block or behind it -/

/-- The reader is at a line of the header block that holds the fields `fs₀` and ends in front of the
octets `y`, or it is behind the block. -/
inductive Along (fs₀ : List Field) (y : Bytes) (r : FlatReader) : Prop
  | inside {fs r'} (hb : HeaderBlock r fs r') (hr : r'.rest = y) (hfs : fs <:+ fs₀)
  | behind (hr : r.rest <:+ y)

/-- The octets `start` are those from a line on of the header block that holds the fields `fs₀` and
ends in front of the octets `y`, and a line further down in it overrides the method. -/
def AtOverridden (fs₀ : List Field) (y start : Bytes) : Prop :=
  ∃ (r r' : FlatReader) (f : Field) (fs : List Field), HeaderBlock r (f :: fs) r' ∧
    r.rest = start ∧ r'.rest = y ∧ f :: fs <:+ fs₀ ∧ ∃ g ∈ fs, g.name = .methodOverride

section

variable {υ : Type} [VersionResolver υ] {allowTrailers : Bool} {versions versions' : υ}
  {r r' : FlatReader} {received : Received} {fs₀ : List Field} {y : Bytes}

theorem suffix_receive (h : r.rest <:+ y)
    (hr : receive allowTrailers versions r = (.ok received, versions', r')) : r'.rest <:+ y := by
  have hrest := (FlatReader.preserved_suffix y).receive allowTrailers versions h
  rw [hr] at hrest
  exact hrest

/-- **A reader in a header block or behind it stays there**, and what it receives begins behind the
block or at a line of it in front of one that overrides the method. -/
theorem along_receive (h : Along fs₀ y r)
    (hr : receive allowTrailers versions r = (.ok received, versions', r')) :
    Along fs₀ y r' ∧ ∀ q, received = .request q →
      r.fromFirstLine <:+ y ∨ AtOverridden fs₀ y r.fromFirstLine := by
  cases h with
  | behind h =>
    exact ⟨.behind (suffix_receive h hr), fun _ _ => .inl (r.suffix_fromFirstLine.trans h)⟩
  | @inside fs r₂ hb hrest hfs =>
    cases hb with
    | done hl =>
      -- The empty line at the end of the block is skipped.
      have hfirst : firstLine r = firstLine r₂ := by rw [firstLine_eq, hl]
      rw [receive, hfirst, ← receive] at hr
      refine ⟨.behind (suffix_receive (hrest ▸ List.suffix_rfl) hr), fun _ _ => .inl ?_⟩
      rw [FlatReader.fromFirstLine_eq, hl, ← hrest]
      exact r₂.suffix_fromFirstLine
    | @field _ r₁ _ line f fs hl hne hf hb =>
      obtain ⟨c, cs, rfl⟩ := List.exists_cons_of_ne_nil hne
      have hfirst : firstLine r = (.ok (some (c :: cs)), r₁) := by rw [firstLine_eq, hl]
      have hstart : r.fromFirstLine = r.rest := by rw [FlatReader.fromFirstLine_eq, hl]
      obtain ⟨n, hblock⟩ := hb.readBlock_eq 0 {}
      have hblock' : Headers.readBlock 0 {} r₁ = (.ok n, ⟨fs⟩, r₂) := hblock
      cases received with
      | request q =>
        -- The text in front of the first space has a colon, so something overrides it.
        obtain ⟨parts, hparts, hmethod, rfl⟩ := effectiveMethod?_of_request hfirst hblock' hr
        obtain ⟨sep, behind, hcut⟩ := exists_splitFirst_eq hparts
        have hover := exists_override (not_isToken_of_ofLine hf hcut) hmethod
        refine ⟨.behind ?_, fun _ _ => .inr ?_⟩
        · exact (FlatReader.preserved_suffix y).receiveBody allowTrailers ⟨fs⟩
            (hrest ▸ List.suffix_rfl)
        · rw [hstart]
          exact ⟨r, r₂, f, fs, .field hl hne hf hb, rfl, hrest, hfs, hover⟩
      | nothing why =>
        refine ⟨?_, fun _ h => by cases h⟩
        rw [reader_of_refused hfirst hblock' hr]
        split
        · exact .behind (hrest ▸ List.suffix_rfl)
        · exact .inside hb hrest ((List.suffix_cons f fs).trans hfs)

end

/-! ### Messages that are refused -/

/-- A message that is complete is refused: behind its request line are the octets `afterLine`,
behind its header block, which holds `h`, the octets `afterBlock`, and behind the body whose length
the header block announces the octets `afterBody`. -/
structure Refuses {υ : Type} [VersionResolver υ] (allowTrailers : Bool) (versions : υ)
    (r : FlatReader) (why : Absence) (h : Headers) (afterLine afterBlock afterBody : Bytes) :
    Prop where
  block : ∃ line r₁ n r₂, firstLine r = (.ok (some line), r₁) ∧ r₁.rest = afterLine ∧
    Headers.readBlock 0 {} r₁ = (.ok n, h, r₂) ∧ r₂.rest = afterBlock
  body : ∃ n, announcedLength h = .ok n ∧ n ≤ afterBlock.length ∧ afterBody = afterBlock.drop n
  refused : (receive allowTrailers versions r).1 = .ok (.nothing why)

namespace Refuses

variable {υ : Type} [VersionResolver υ] {allowTrailers : Bool} {versions : υ} {r : FlatReader}
  {why : Absence} {h : Headers} {afterLine afterBlock afterBody : Bytes}

/-- Behind a refusal the reader is at the first line of the header block, or behind the block. -/
theorem along (hr : Refuses allowTrailers versions r why h afterLine afterBlock afterBody) :
    Along h.fields afterBlock (receive allowTrailers versions r).2.2 := by
  obtain ⟨line, r₁, n, r₂, hline, -, hblock, rfl⟩ := hr.block
  obtain ⟨fs, hfields, hb⟩ := headerBlock_of_readBlock hblock
  obtain rfl : h = ⟨fs⟩ := hfields
  rw [reader_of_refused hline hblock (Prod.ext hr.refused rfl)]
  split
  · exact .behind List.suffix_rfl
  · exact .inside hb rfl List.suffix_rfl

/-- Behind a method that is refused it is behind the block. -/
theorem behind (hr : Refuses allowTrailers versions r why h afterLine afterBlock afterBody)
    (hwhy : why = .badMethod) : (receive allowTrailers versions r).2.2.rest <:+ afterBlock := by
  obtain ⟨line, r₁, n, r₂, hline, -, hblock, rfl⟩ := hr.block
  have hleft := reader_of_refused hline hblock (Prod.ext hr.refused rfl)
  rw [if_pos hwhy] at hleft
  exact hleft ▸ List.suffix_rfl

end Refuses

end HttpWire
