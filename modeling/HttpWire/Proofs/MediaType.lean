import Mathlib.Data.List.TakeWhile
import HttpWire.MediaType
import HttpWire.Proofs.Message.Token
import HttpWire.Proofs.Text.Split

/-!
# The form of media types

`MediaType.Writes` is the form of a text that names a media type: a type and a subtype, and behind
semicolons parameters, each a name and a value.  A text of this form is read as what it names, and
no other text is read at all (`exists_ofText?_of_writes`, `exists_writes_of_ofText?`).

Each part of the text ends where a character stands that cannot be in it, so a reader that takes as
much as fits finds the parts again (`takeWhile_append_of_head`).  Only behind an unquoted value the
end of the text makes a difference: there the value may be empty.
-/

namespace HttpWire

/-! ### Taking as much as fits -/

section

variable {α : Type} {p : α → Bool}

/-- What fits is taken up to the first element that does not. -/
theorem takeWhile_append_of_head (front rest : List α) (hfront : ∀ a ∈ front, p a = true)
    (hrest : ∀ a ∈ rest.head?, p a = false) :
    (front ++ rest).takeWhile p = front ∧ (front ++ rest).dropWhile p = rest := by
  rw [List.takeWhile_append_of_pos hfront, List.dropWhile_append_of_pos hfront]
  cases rest with
  | nil => exact ⟨List.append_nil front, rfl⟩
  | cons a rest =>
    have ha : ¬ p a = true := by simpa using hrest a rfl
    rw [List.takeWhile_cons_of_neg ha, List.dropWhile_cons_of_neg ha, List.append_nil]
    exact ⟨rfl, rfl⟩

theorem forall_mem_takeWhile (p : α → Bool) (l : List α) : ∀ a ∈ l.takeWhile p, p a = true :=
  List.all_eq_true.mp List.all_takeWhile

end

namespace MediaType

variable {t : Text} {params : List (Text × Text)}

/-! ### The form -/

/-- Only spaces. -/
def IsSpaces (t : Text) : Prop :=
  ∀ c ∈ t, c = ' '

/-- A text writes the value of a parameter: as it is if it has only characters of tokens, or between
quotes with spaces behind them.  Between quotes nothing is escaped, and a quote may only stand at
the very beginning. -/
inductive WritesValue : Text → Text → Prop
  | plain {value : Text} (h : ∀ c ∈ value, isTokenChar c = true) : WritesValue value value
  | quoted {first : Char} {rest spaces : Text} (h : ∀ c ∈ first :: rest, isQuotable c = true)
    (hno : '"' ∉ rest) (hspaces : IsSpaces spaces) :
    WritesValue (first :: rest) ('"' :: (first :: rest) ++ '"' :: spaces)

/-- A text writes parameters behind a semicolon.  Unless it stands at the end, a value is written
with at least one character. -/
inductive WritesParams : List (Text × Text) → Text → Prop
  | nothing {spaces : Text} (h : IsSpaces spaces) : WritesParams [] spaces
  | last {spaces name value written : Text} (hspaces : IsSpaces spaces) (hname : isToken name = true)
    (hvalue : WritesValue value written) :
    WritesParams [(name, value)] (spaces ++ (name ++ '=' :: written))
  | more {spaces name value written rest : Text} {params : List (Text × Text)}
    (hspaces : IsSpaces spaces) (hname : isToken name = true) (hvalue : WritesValue value written)
    (hne : written ≠ []) (hrest : WritesParams params rest) :
    WritesParams ((name, value) :: params)
      (spaces ++ (name ++ '=' :: (written ++ ';' :: rest)))

/-- A text names a type, a subtype and parameters.  The subtype may be empty if nothing stands
behind it. -/
inductive Writes : Text → Text → List (Text × Text) → Text → Prop
  | bare {type subtype : Text} (htype : isToken type = true)
    (hsubtype : ∀ c ∈ subtype, isTokenChar c = true) :
    Writes type subtype [] (type ++ '/' :: subtype)
  | withParams {type subtype rest : Text} {params : List (Text × Text)}
    (htype : isToken type = true) (hsubtype : isToken subtype = true)
    (hparams : WritesParams params rest) :
    Writes type subtype params (type ++ '/' :: (subtype ++ ';' :: rest))

/-! ### Values -/

theorem quotedValue?_eq_some_iff {said behind : Text} :
    quotedValue? t = some (said, behind) ↔
      ∃ first rest, said = first :: rest ∧ t = said ++ '"' :: behind ∧ '"' ∉ rest ∧
        ∀ c ∈ said, isQuotable c = true := by
  cases t with
  | nil =>
    constructor
    · nofun
    · rintro ⟨first, rest, rfl, h, -⟩
      cases h
  | cons first inside =>
    rw [quotedValue?]
    constructor
    · intro h
      cases hs : splitFirst (· == '"') inside with
      | none =>
        rw [hs] at h
        cases h
      | some parts =>
        obtain ⟨before, sep, after⟩ := parts
        obtain ⟨rfl, rfl, hno⟩ := splitFirst_beq_eq_some_iff.mp hs
        rw [hs] at h
        obtain ⟨hall, heq⟩ := Option.ite_none_right_eq_some.mp h
        cases heq
        exact ⟨first, before, rfl, rfl, hno, List.all_eq_true.mp hall⟩
    · rintro ⟨first', rest, rfl, heq, hno, hall⟩
      obtain ⟨rfl, rfl⟩ := List.cons.inj heq
      have hcut : splitFirst (· == '"') (rest.append ('"' :: behind)) = some (rest, '"', behind) :=
        splitFirst_beq_append_cons hno
      rw [hcut]
      simp only
      rw [if_pos (List.all_eq_true.mpr hall)]

/-- What is read as a value is written in front of what is left. -/
theorem writesValue_of_value? {v : Value} (h : value? t = some v) :
    t = v.written ++ v.behind ∧ WritesValue v.said v.written ∧ (v.behind ≠ [] → v.written ≠ []) := by
  unfold value? at h
  split at h
  · next inside =>
    split at h
    · cases h
    · next said behind hq =>
      cases h
      obtain ⟨first, rest, rfl, rfl, hno, hall⟩ := quotedValue?_eq_some_iff.mp hq
      refine ⟨?_, .quoted hall hno fun c hc => ?_, fun _ => List.cons_ne_nil _ _⟩
      · simp only [List.cons_append, List.append_assoc, List.takeWhile_append_dropWhile]
      · exact beq_iff_eq.mp (forall_mem_takeWhile _ _ c hc)
  · simp only at h
    split at h
    · cases h
    · next hempty =>
      cases h
      refine ⟨List.takeWhile_append_dropWhile.symm, .plain (forall_mem_takeWhile _ _), ?_⟩
      rintro hbehind hsaid
      rw [Bool.and_eq_true, List.isEmpty_iff, Bool.not_eq_true', List.isEmpty_eq_false_iff] at hempty
      exact hempty ⟨hsaid, hbehind⟩

/-- A value that is written is read, up to the end or the semicolon behind it. -/
theorem value?_of_writesValue {value written : Text} (h : WritesValue value written)
    (behind : Text)
    (hbehind : behind = [] ∨ written ≠ [] ∧ behind.head? = some ';') :
    value? (written ++ behind) = some ⟨value, written, behind⟩ := by
  have hhead {c : Char} (hc : c ∈ behind.head?) : c = ';' := by
    rcases hbehind with rfl | ⟨-, hsemicolon⟩
    · cases hc
    · exact (Option.some.inj (hsemicolon.symm.trans hc)).symm
  cases h with
  | plain h =>
    have hcut := takeWhile_append_of_head value behind h fun c hc => by rw [hhead hc]; decide
    have hquote : ∀ inside, value ++ behind ≠ '"' :: inside := by
      intro inside heq
      cases value with
      | nil => exact absurd (hhead (congrArg List.head? heq)) (by decide)
      | cons c value =>
        obtain ⟨rfl, -⟩ := List.cons.inj heq
        exact absurd (h '"' List.mem_cons_self) (by decide)
    have hsome : ¬ (value.isEmpty && !behind.isEmpty) = true := by
      rcases hbehind with rfl | ⟨hne, -⟩
      · simp
      · simp [hne]
    unfold value?
    split
    · next inside heq => exact absurd heq (hquote inside)
    · simp only [hcut]
      rw [if_neg hsome]
  | @quoted first rest spaces h hno hspaces =>
    have hread : quotedValue? ((first :: rest) ++ '"' :: (spaces ++ behind)) =
        some (first :: rest, spaces ++ behind) :=
      quotedValue?_eq_some_iff.mpr ⟨first, rest, rfl, rfl, hno, h⟩
    have hcut := takeWhile_append_of_head (p := (· == ' ')) spaces behind
      (fun c hc => beq_iff_eq.mpr (hspaces c hc)) fun c hc => by rw [hhead hc]; decide
    have htext : '"' :: (first :: rest) ++ '"' :: spaces ++ behind =
        '"' :: ((first :: rest) ++ '"' :: (spaces ++ behind)) := by
      simp only [List.cons_append, List.append_assoc]
    rw [htext, value?]
    simp only [hread, hcut]

/-! ### Parameters -/

/-- One step of reading parameters. -/
theorem params?_eq (t : Text) :
    params? t =
      let spaces := t.takeWhile (· == ' ')
      let inner := t.dropWhile (· == ' ')
      let name := inner.takeWhile isTokenChar
      match inner.dropWhile isTokenChar with
      | [] => if name.isEmpty then some ([], spaces) else none
      | '=' :: behind =>
        if name.isEmpty then none
        else
          match value? behind with
          | none => none
          | some v =>
            let shown := spaces ++ Text.lower name ++ '=' :: shownValue (Text.lower name) v
            match v.behind with
            | [] => some ([(name, v.said)], shown)
            | ';' :: rest =>
              match params? rest with
              | none => none
              | some (ps, shown') => some ((name, v.said) :: ps, shown ++ ';' :: shown')
            | _ => none
      | _ => none := by
  rw [params?]
  dsimp only
  split
  · next h => rw [h]
  · next behind h =>
    simp only [h]
    split
    · rfl
    · split
      · next hv => rw [hv]
      · next v hv =>
        simp only [hv]
        split
        · next hbehind => rw [hbehind]
        · next rest hbehind =>
          cases hparams : params? rest <;> simp only [hbehind, hparams]
        · next hnil hsemicolon =>
          split
          · next hbehind => exact absurd hbehind hnil
          · next hbehind => exact absurd hbehind (hsemicolon _)
          · rfl
  · next hnil hequals =>
    split
    · next h => exact absurd h hnil
    · next h => exact absurd h (hequals _)
    · rfl

/-- What is read as parameters is written as such. -/
theorem writesParams_of_params? {shown : Text} (h : params? t = some (params, shown)) :
    WritesParams params t := by
  have hspaces (t : Text) : IsSpaces (t.takeWhile (· == ' ')) := fun c hc =>
    beq_iff_eq.mp (forall_mem_takeWhile _ _ c hc)
  induction hn : t.length using Nat.strongRecOn generalizing t params shown with
  | ind n ih =>
    have htext : t = t.takeWhile (· == ' ') ++
        ((t.dropWhile (· == ' ')).takeWhile isTokenChar ++
          (t.dropWhile (· == ' ')).dropWhile isTokenChar) := by
      rw [List.takeWhile_append_dropWhile, List.takeWhile_append_dropWhile]
    have hname (hne : ¬ ((t.dropWhile (· == ' ')).takeWhile isTokenChar).isEmpty = true) :
        isToken ((t.dropWhile (· == ' ')).takeWhile isTokenChar) = true := by
      rw [isToken, Bool.and_eq_true, Bool.not_eq_true']
      exact ⟨by simpa using hne, List.all_takeWhile⟩
    rw [params?_eq] at h
    dsimp only at h
    split at h
    · next hend =>
      obtain ⟨hempty, heq⟩ := Option.ite_none_right_eq_some.mp h
      cases heq
      rw [htext, hend, List.isEmpty_iff.mp hempty, List.append_nil, List.append_nil]
      exact .nothing (hspaces t)
    · next behind hequals =>
      obtain ⟨hne, h⟩ := Option.ite_none_left_eq_some.mp h
      split at h
      · cases h
      · next v hv =>
        obtain ⟨hwritten, hvalue, hnonempty⟩ := writesValue_of_value? hv
        rw [hequals, hwritten] at htext
        split at h
        · next hbehind =>
          cases h
          rw [hbehind, List.append_nil] at htext
          have hlast := WritesParams.last (hspaces t) (hname hne) hvalue
          rwa [← htext] at hlast
        · next rest hbehind =>
          split at h
          · cases h
          · next ps shown' hrest =>
            cases h
            rw [hbehind] at htext hnonempty
            have hlt : rest.length < n := by
              have hlength := congrArg List.length htext
              simp only [List.length_append, List.length_cons] at hlength
              omega
            have hmore := WritesParams.more (hspaces t) (hname hne) hvalue
              (hnonempty (List.cons_ne_nil _ _)) (ih _ hlt hrest rfl)
            rwa [← htext] at hmore
        · cases h
    · cases h

/-- A name behind spaces is found, and the equals sign behind it. -/
theorem cut_name {spaces name : Text} (behind : Text) (hspaces : IsSpaces spaces)
    (hname : isToken name = true) :
    let inner := (spaces ++ (name ++ '=' :: behind)).dropWhile (· == ' ')
    inner.takeWhile isTokenChar = name ∧ inner.dropWhile isTokenChar = '=' :: behind := by
  have hall := all_of_isToken hname
  obtain ⟨c, rest, rfl⟩ : ∃ c rest, name = c :: rest := by
    cases name with
    | nil => cases hname
    | cons c rest => exact ⟨c, rest, rfl⟩
  have hhead : ∀ d ∈ ((c :: rest) ++ '=' :: behind).head?, (d == ' ') = false := by
    rintro d hd
    obtain rfl := Option.some.inj hd
    rw [beq_eq_false_iff_ne]
    rintro rfl
    exact absurd (hall ' ' List.mem_cons_self) (by decide)
  have hinner := (takeWhile_append_of_head (p := (· == ' ')) spaces _
    (fun d hd => beq_iff_eq.mpr (hspaces d hd)) hhead).2
  dsimp only
  rw [hinner]
  refine takeWhile_append_of_head _ _ hall ?_
  rintro d hd
  obtain rfl := Option.some.inj hd
  decide

/-- **Parameters that are written are read.** -/
theorem params?_of_writesParams (h : WritesParams params t) :
    ∃ shown, params? t = some (params, shown) := by
  have hnonempty {name : Text} (hname : isToken name = true) : ¬ name.isEmpty = true := by
    rw [isToken, Bool.and_eq_true, Bool.not_eq_true'] at hname
    rw [hname.1]
    exact Bool.false_ne_true
  induction h with
  | @nothing spaces h =>
    have hcut : spaces.dropWhile (· == ' ') = [] :=
      List.dropWhile_eq_nil_iff.mpr fun c hc => beq_iff_eq.mpr (h c hc)
    refine ⟨spaces.takeWhile (· == ' '), ?_⟩
    rw [params?_eq]
    simp only [hcut]
    rfl
  | @last spaces name value written hspaces hname hvalue =>
    obtain ⟨htake, hdrop⟩ := cut_name written hspaces hname
    have hread := value?_of_writesValue hvalue [] (.inl rfl)
    rw [List.append_nil] at hread
    rw [params?_eq]
    simp only [htake, hdrop, hread]
    rw [if_neg (hnonempty hname)]
    exact ⟨_, rfl⟩
  | @more spaces name value written rest params hspaces hname hvalue hne _ ih =>
    obtain ⟨shown, hrest⟩ := ih
    obtain ⟨htake, hdrop⟩ := cut_name (written ++ ';' :: rest) hspaces hname
    have hread := value?_of_writesValue hvalue (';' :: rest) (.inr ⟨hne, rfl⟩)
    rw [params?_eq]
    simp only [htake, hdrop, hread, hrest]
    rw [if_neg (hnonempty hname)]
    exact ⟨_, rfl⟩

/-! ### Types -/

/-- What is read as a media type is written as such. -/
theorem exists_writes_of_ofText? {m : MediaType} (h : ofText? t = some m) :
    ∃ type subtype, Writes type subtype m.params t ∧ m.type = Text.lower type ∧
      m.subtype = Text.lower subtype := by
  have htext : t = t.takeWhile isTokenChar ++ t.dropWhile isTokenChar :=
    List.takeWhile_append_dropWhile.symm
  have hlower (t : Text) (h : ¬ (Text.lower t).isEmpty = true) (hall : t.all isTokenChar = true) :
      isToken t = true := by
    rw [isToken, Bool.and_eq_true, Bool.not_eq_true']
    refine ⟨?_, hall⟩
    simpa [Text.lower] using h
  unfold ofText? at h
  dsimp only at h
  split at h
  · next behind hslash =>
    obtain ⟨htype, h⟩ := Option.ite_none_left_eq_some.mp h
    have htype := hlower _ htype List.all_takeWhile
    have hbehind : behind = behind.takeWhile isTokenChar ++ behind.dropWhile isTokenChar :=
      List.takeWhile_append_dropWhile.symm
    rw [hslash] at htext
    split at h
    · next hend =>
      cases h
      refine ⟨t.takeWhile isTokenChar, behind.takeWhile isTokenChar, ?_, rfl, rfl⟩
      have hbare := Writes.bare htype (forall_mem_takeWhile isTokenChar behind)
      rw [hend, List.append_nil] at hbehind
      have hwhole : t = t.takeWhile isTokenChar ++ '/' :: behind.takeWhile isTokenChar := by
        rw [← hbehind]
        exact htext
      rwa [← hwhole] at hbare
    · next rest hsemicolon =>
      obtain ⟨hsubtype, h⟩ := Option.ite_none_left_eq_some.mp h
      have hsubtype := hlower _ hsubtype List.all_takeWhile
      rw [hsemicolon] at hbehind
      have hwith {params : List (Text × Text)} (hparams : WritesParams params rest) :
          Writes (t.takeWhile isTokenChar) (behind.takeWhile isTokenChar) params t := by
        have hparams := Writes.withParams htype hsubtype hparams
        rwa [← hbehind, ← htext] at hparams
      split at h
      · cases h
      · next hparams =>
        cases h
        exact ⟨_, _, hwith (writesParams_of_params? hparams), rfl, rfl⟩
      · next hparams =>
        cases h
        exact ⟨_, _, hwith (writesParams_of_params? hparams), rfl, rfl⟩
    · cases h
  · cases h

/-- **A media type that is written is read.** -/
theorem exists_ofText?_of_writes {type subtype : Text} (h : Writes type subtype params t) :
    ∃ m, ofText? t = some m ∧ m.type = Text.lower type ∧ m.subtype = Text.lower subtype ∧
      m.params = params := by
  have hnonempty {t : Text} (h : isToken t = true) : ¬ (Text.lower t).isEmpty = true := by
    rw [isToken, Bool.and_eq_true, Bool.not_eq_true'] at h
    simpa [Text.lower] using h.1
  have hcut {token : Text} (rest : Text) {c : Char} (h : ∀ c ∈ token, isTokenChar c = true)
      (hc : isTokenChar c = false) :=
    takeWhile_append_of_head token (c :: rest) h fun d hd => by
      obtain rfl := Option.some.inj hd
      exact hc
  cases h with
  | bare htype hsubtype =>
    have hslash := hcut subtype (all_of_isToken htype) (c := '/') (by decide)
    unfold ofText?
    simp only [hslash, List.takeWhile_eq_self_iff.mpr hsubtype,
      List.dropWhile_eq_nil_iff.mpr hsubtype]
    rw [if_neg (hnonempty htype)]
    exact ⟨_, rfl, rfl, rfl, rfl⟩
  | @withParams rest _ htype hsubtype hparams =>
    have hslash := hcut (subtype ++ ';' :: rest) (all_of_isToken htype) (c := '/')
      (by decide)
    have hsemicolon := hcut rest (all_of_isToken hsubtype) (c := ';') (by decide)
    obtain ⟨shown, hread⟩ := params?_of_writesParams hparams
    unfold ofText?
    simp only [hslash, hsemicolon, hread]
    rw [if_neg (hnonempty htype), if_neg (hnonempty hsubtype)]
    cases params with
    | nil => exact ⟨_, rfl, rfl, rfl, rfl⟩
    | cons param params => exact ⟨_, rfl, rfl, rfl, rfl⟩

/-! ### Boundaries -/

/-- A text is a multipart type, and the first parameter of it that is called `boundary` in any
letter case has that value. -/
def WritesBoundary (boundary t : Text) : Prop :=
  ∃ type subtype before name after,
    Writes type subtype (before ++ (name, boundary) :: after) t ∧
      Text.lower type = "multipart".toList ∧ Text.lower name = "boundary".toList ∧
      ∀ param ∈ before, Text.lower param.1 ≠ "boundary".toList

/-- **The boundary that is found is the one that is written.** -/
theorem writesBoundary_iff {boundary : Text} :
    WritesBoundary boundary t ↔ (ofText? t).bind multipartBoundary? = some boundary := by
  have hsmall : Text.lower "boundary".toList = "boundary".toList := by decide
  constructor
  · rintro ⟨type, subtype, before, name, after, hwrites, htype, hname, hbefore⟩
    obtain ⟨m, hm, hmtype, -, hparams⟩ := exists_ofText?_of_writes hwrites
    rw [hm, Option.bind_some, multipartBoundary?, if_pos (hmtype.trans htype), param?, hparams,
      List.find?_append, List.find?_eq_none.mpr, Option.none_or, List.find?_cons_of_pos]
    · rfl
    · rw [Text.sameIgnoringCase, hsmall, hname, beq_self_eq_true]
    · intro param hparam
      rw [Text.sameIgnoringCase, hsmall, beq_iff_eq]
      exact hbefore param hparam
  · intro h
    obtain ⟨m, hm, hboundary⟩ := Option.bind_eq_some_iff.mp h
    obtain ⟨type, subtype, hwrites, hmtype, -⟩ := exists_writes_of_ofText? hm
    obtain ⟨htype, hfound⟩ := Option.ite_none_right_eq_some.mp hboundary
    obtain ⟨⟨name, value⟩, hfind, rfl⟩ := Option.map_eq_some_iff.mp hfound
    obtain ⟨hname, before, after, hparams, hbefore⟩ := List.find?_eq_some_iff_append.mp hfind
    rw [hparams] at hwrites
    refine ⟨type, subtype, before, name, after, hwrites, hmtype.symm.trans htype, ?_, ?_⟩
    · rwa [Text.sameIgnoringCase, hsmall, beq_iff_eq] at hname
    · intro param hparam hsame
      have hother := hbefore param hparam
      rw [Text.sameIgnoringCase, hsmall, hsame] at hother
      cases hother

end MediaType

end HttpWire
