import Mathlib.Data.List.Forall2
import HttpWire.Proofs.Field.Value
import HttpWire.Proofs.FormPairs
import HttpWire.Request.Basic

/-!
# Targets

The target of a request is a path, or a path and a query with a question mark between them.  A query
has pairs between ampersands, of which each is a name and perhaps a value behind an equals sign, in
an encoding that gives octets for octets (`FormPairs.StandsFor`).

`FormPairs.WrittenIn` and `Request.Targets` put this together, and what is read is what these say
(`FormPairs.writtenIn_iff`, `Request.targets_ofTarget`).
-/

namespace HttpWire

namespace FormPairs

variable {bs said : Bytes}

/-! ### Halves -/

/-- Two octets are hexadecimal digits, of either case, that write an octet. -/
def IsHexPair (high low octet : UInt8) : Prop :=
  ∃ h l, Text.IsHexDigit (Char.ofNat high.toNat) h ∧ Text.IsHexDigit (Char.ofNat low.toNat) l ∧
    octet = UInt8.ofNat (16 * h + l)

/-- Octets stand for octets: a plus sign for a space, a percent sign for the octet that the two
digits behind it write, and every other octet for itself.  So does a percent sign that has no two
digits behind it. -/
inductive StandsFor : Bytes → Bytes → Prop
  | nil : StandsFor [] []
  | space {bs said : Bytes} (h : StandsFor bs said) : StandsFor (0x2B :: bs) (0x20 :: said)
  | escaped {high low octet : UInt8} {bs said : Bytes} (hpair : IsHexPair high low octet)
    (h : StandsFor bs said) : StandsFor (0x25 :: high :: low :: bs) (octet :: said)
  | itself {b : UInt8} {bs said : Bytes} (hplus : b ≠ 0x2B)
    (hpercent : b = 0x25 → ∀ high low octet rest, bs = high :: low :: rest →
      ¬ IsHexPair high low octet)
    (h : StandsFor bs said) : StandsFor (b :: bs) (b :: said)

theorem hexPair?_eq_some_iff {high low octet : UInt8} :
    hexPair? high low = some octet ↔ IsHexPair high low octet := by
  rw [IsHexPair, hexPair?]
  simp only [← Text.hexValue?_eq_some_iff]
  cases Text.hexValue? (Char.ofNat high.toNat) with
  | none => simp
  | some h =>
    cases Text.hexValue? (Char.ofNat low.toNat) with
    | none => simp
    | some l => simp [eq_comm]

/-- A percent sign without two digits behind it is read as itself. -/
theorem decodeOctets_percent_itself
    (h : ∀ high low octet rest, bs = high :: low :: rest → ¬ IsHexPair high low octet) :
    decodeOctets (0x25 :: bs) = 0x25 :: decodeOctets bs := by
  match bs with
  | [] => rfl
  | [_] => rfl
  | high :: low :: rest =>
    have hnone : hexPair? high low = none := by
      cases hp : hexPair? high low with
      | none => rfl
      | some octet => exact absurd (hexPair?_eq_some_iff.mp hp) (h _ _ _ _ rfl)
    rw [decodeOctets, if_pos rfl, hnone]
    rfl

/-- **What octets stand for is what they are read as.** -/
theorem standsFor_iff : StandsFor bs said ↔ decodeOctets bs = said := by
  constructor
  · intro h
    induction h with
    | nil => rfl
    | space _ ih =>
      rw [decodeOctets_cons (by decide), ih]
      rfl
    | escaped hpair _ ih => rw [decodeOctets_percent (hexPair?_eq_some_iff.mpr hpair), ih]
    | @itself b bs said hplus hpercent _ ih =>
      by_cases hb : b = 0x25
      · subst hb
        rw [decodeOctets_percent_itself (hpercent rfl), ih]
      · rw [decodeOctets_cons hb, plusToSpace, if_neg hplus, ih]
  · rintro rfl
    -- By induction on the length, since three octets are read at once behind a percent sign.
    induction hn : bs.length using Nat.strongRecOn generalizing bs with
    | ind n ih =>
      cases bs with
      | nil => exact .nil
      | cons b bs =>
        have hrest := ih bs.length (hn ▸ Nat.lt_succ_self _) rfl
        by_cases hb : b = 0x25
        · subst hb
          by_cases hpair : ∃ high low octet rest, bs = high :: low :: rest ∧
              IsHexPair high low octet
          · obtain ⟨high, low, octet, rest, rfl, hpair⟩ := hpair
            have hlt : rest.length < n := by
              rw [← hn, List.length_cons, List.length_cons, List.length_cons]
              omega
            rw [decodeOctets_percent (hexPair?_eq_some_iff.mpr hpair)]
            exact .escaped hpair (ih _ hlt rfl)
          · have hno : ∀ high low octet rest, bs = high :: low :: rest →
                ¬ IsHexPair high low octet := fun high low octet rest hbs hp =>
              hpair ⟨high, low, octet, rest, hbs, hp⟩
            rw [decodeOctets_percent_itself hno]
            exact .itself (by decide) (fun _ => hno) hrest
        · rw [decodeOctets_cons hb, plusToSpace]
          by_cases hplus : b = 0x2B
          · rw [if_pos hplus, hplus]
            exact .space hrest
          · rw [if_neg hplus]
            exact .itself hplus (fun h => absurd h hb) hrest

/-! ### Pairs -/

/-- A piece writes a pair: a name, and behind the first equals sign the value, which is empty if
there is none. -/
inductive WritesPair : Bytes → Text × Text → Prop
  | name {name said : Bytes} (hno : 0x3D ∉ name) (h : StandsFor name said) :
    WritesPair name (Utf8.decodeLossy said, [])
  | value {name value said said' : Bytes} (hno : 0x3D ∉ name) (hname : StandsFor name said)
    (hvalue : StandsFor value said') :
    WritesPair (name ++ 0x3D :: value) (Utf8.decodeLossy said, Utf8.decodeLossy said')

theorem writesPair_iff {piece : Bytes} {pair : Text × Text} :
    WritesPair piece pair ↔
      (decodeHalf (cutFirst (· == 0x3D) piece).1, decodeHalf (cutFirst (· == 0x3D) piece).2) =
        pair := by
  constructor
  · rintro (⟨hno, h⟩ | ⟨hno, hname, hvalue⟩)
    · rw [cutFirst, splitFirst_beq_eq_none_iff.mpr hno]
      simp only [decodeHalf, standsFor_iff.mp h]
      rfl
    · rw [cutFirst, splitFirst_beq_append_cons hno]
      simp only [decodeHalf, standsFor_iff.mp hname, standsFor_iff.mp hvalue]
  · rintro rfl
    rw [cutFirst]
    cases hs : splitFirst (· == 0x3D) piece with
    | none => exact .name (splitFirst_beq_eq_none_iff.mp hs) (standsFor_iff.mpr rfl)
    | some parts =>
      obtain ⟨name, sep, value⟩ := parts
      obtain ⟨rfl, rfl, hno⟩ := splitFirst_beq_eq_some_iff.mp hs
      exact .value hno (standsFor_iff.mpr rfl) (standsFor_iff.mpr rfl)

/-- Pairs are written in octets: each in a piece between ampersands, where empty pieces do not
count. -/
def WrittenIn (p : FormPairs) (bs : Bytes) : Prop :=
  ∃ pieces, Separated 0x26 pieces bs ∧
    List.Forall₂ WritesPair (pieces.filter (· ≠ [])) p.pairs

/-- **The pairs that are read are those that are written.** -/
theorem writtenIn_iff {p : FormPairs} : p.WrittenIn bs ↔ ofBytes bs = p := by
  have hfilter (pieces : List Bytes) :
      pieces.filter (fun piece => !piece.isEmpty) = pieces.filter (· ≠ []) := by
    apply List.filter_congr
    intro piece _
    cases piece <;> rfl
  have hall (pieces : List Bytes) (pairs : List (Text × Text)) :
      List.Forall₂ WritesPair pieces pairs ↔ pieces.map (fun piece =>
        (decodeHalf (cutFirst (· == 0x3D) piece).1, decodeHalf (cutFirst (· == 0x3D) piece).2)) =
          pairs := by
    rw [← List.forall₂_eq_eq_eq, List.forall₂_map_left_iff]
    exact iff_of_eq (congrArg (List.Forall₂ · pieces pairs)
      (funext₂ fun _ _ => propext writesPair_iff))
  obtain ⟨pairs⟩ := p
  rw [WrittenIn, ofBytes, mk.injEq, hfilter]
  constructor
  · rintro ⟨pieces, hpieces, hpairs⟩
    rw [separated_iff.mp hpieces]
    exact (hall _ _).mp hpairs
  · intro h
    exact ⟨_, separated_splitOn _ _, (hall _ _).mpr h⟩

end FormPairs

/-! ### Targets -/

/-- A request has a target: its path, and behind the first question mark its query. -/
inductive Request.Targets (q : Request) : Text → Prop
  | path (hno : '?' ∉ q.path) (hquery : q.query = {}) : Targets q q.path
  | query {query : Text} (hno : '?' ∉ q.path) (hquery : q.query.WrittenIn (Utf8.encode query)) :
    Targets q (q.path ++ '?' :: query)

/-- **What is made of a target has that target.** -/
theorem Request.targets_ofTarget (method : Method) (target protocol : Text) (version : Version)
    (headers : Headers) (body : Body) :
    (ofTarget method target protocol version headers body).Targets target := by
  generalize hq : ofTarget method target protocol version headers body = q
  rw [ofTarget, cutFirst] at hq
  cases hs : splitFirst (· == '?') target with
  | none =>
    rw [hs] at hq
    subst hq
    exact .path (splitFirst_beq_eq_none_iff.mp hs) rfl
  | some parts =>
    obtain ⟨path, sep, query⟩ := parts
    obtain ⟨rfl, rfl, hno⟩ := splitFirst_beq_eq_some_iff.mp hs
    rw [hs] at hq
    subst hq
    exact .query hno (FormPairs.writtenIn_iff.mpr rfl)

/-- A target says what the path and the query are. -/
theorem Request.Targets.unique {q q' : Request} {target : Text} (h : q.Targets target)
    (h' : q'.Targets target) : q.path = q'.path ∧ q.query = q'.query := by
  have hcut {q : Request} {target : Text} (h : q.Targets target) :
      cutFirst (· == '?') target = (q.path, (cutFirst (· == '?') target).2) ∧
        q.query = FormPairs.ofBytes (Utf8.encode (cutFirst (· == '?') target).2) := by
    cases h with
    | path hno hquery =>
      rw [cutFirst, splitFirst_beq_eq_none_iff.mpr hno]
      exact ⟨rfl, hquery⟩
    | query hno hquery =>
      rw [cutFirst, splitFirst_beq_append_cons hno]
      exact ⟨rfl, (FormPairs.writtenIn_iff.mp hquery).symm⟩
  exact ⟨(Prod.ext_iff.mp ((hcut h).1.symm.trans (hcut h').1)).1,
    (hcut h).2.trans (hcut h').2.symm⟩

end HttpWire
