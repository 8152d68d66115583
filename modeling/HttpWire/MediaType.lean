import HttpWire.Field.Name
import HttpWire.Text.Split

/-!
# Media types

A media type is `type/subtype`, both tokens, with parameters `name=value` behind semicolons.
Spaces may stand before a parameter's name and behind a quoted value, and nowhere else; a
semicolon at the end is allowed.  A value is a token or stands between double quotes, where
nothing is escaped and the first character is taken as it is, even if it is a quote.  The subtype
may be empty only when nothing follows it, and an unquoted value likewise.

The text of a media type is the one it was read from, in small letters except for the values of
the parameters; the value of `charset` is put in small letters too.  Semicolons that no parameter
follows are not part of it if there is no parameter at all.
-/

namespace HttpWire

/-- A media type: its type and subtype in small letters, its parameters, and its text. -/
structure MediaType where
  type : Text
  subtype : Text
  params : List (Text × Text) := []
  text : Text
deriving DecidableEq

namespace MediaType

/-- Whether a character may stand between quotes. -/
def isQuotable (c : Char) : Bool :=
  ' ' ≤ c && c ≠ '\x7F'

/-- Reads a quoted value behind its opening quote: the value and what lies behind the closing
one. -/
def quotedValue? : Text → Option (Text × Text)
  | [] => none
  | first :: rest =>
    match splitFirst (· == '"') rest with
    | none => none
    | some (before, _, after) =>
      if (first :: before).all isQuotable then some (first :: before, after) else none

/-- A parameter's value as it was read: what it says, how it is written, and what lies behind. -/
structure Value where
  said : Text
  written : Text
  behind : Text

/-- Reads the value of a parameter, up to the semicolon that ends it or to the end. -/
def value? (t : Text) : Option Value :=
  match t with
  | '"' :: inside =>
    match quotedValue? inside with
    | none => none
    | some (said, behind) =>
      let spaces := behind.takeWhile (· == ' ')
      some ⟨said, '"' :: said ++ '"' :: spaces, behind.dropWhile (· == ' ')⟩
  | _ =>
    let said := t.takeWhile isTokenChar
    let behind := t.dropWhile isTokenChar
    -- Nothing at all is a value only at the very end.
    if said.isEmpty && !behind.isEmpty then none else some ⟨said, said, behind⟩

theorem length_behind_le {t : Text} {v : Value} (h : value? t = some v) :
    v.behind.length ≤ t.length := by
  have drop (p : Char → Bool) (l : Text) : (l.dropWhile p).length ≤ l.length :=
    (List.dropWhile_sublist p).length_le
  unfold value? at h
  split at h
  · next inside =>
    split at h
    · cases h
    · next said behind hq =>
      cases h
      refine Nat.le_trans (drop _ _) ?_
      unfold quotedValue? at hq
      split at hq
      · cases hq
      · next first rest =>
        split at hq
        · cases hq
        · next before sep after hs =>
          split at hq
          · cases hq
            have := length_lt_of_splitFirst hs
            simp only [List.length_cons]
            omega
          · cases hq
  · simp only at h
    split at h
    · cases h
    · cases h
      exact drop _ _

/-- A parameter's value as the text of the media type has it. -/
def shownValue (name : Text) (v : Value) : Text :=
  if name = "charset".toList then Text.lower v.written else v.written

/-- Reads parameters behind a semicolon: the parameters and their text. -/
def params? (t : Text) : Option (List (Text × Text) × Text) :=
  let spaces := t.takeWhile (· == ' ')
  let name := (t.dropWhile (· == ' ')).takeWhile isTokenChar
  let small := Text.lower name
  match _hname : (t.dropWhile (· == ' ')).dropWhile isTokenChar with
  | [] => if name.isEmpty then some ([], spaces) else none
  | '=' :: behind =>
    if name.isEmpty then none
    else
      match _hvalue : value? behind with
      | none => none
      | some v =>
        let shown := spaces ++ small ++ '=' :: shownValue small v
        match _hrest : v.behind with
        | [] => some ([(name, v.said)], shown)
        | ';' :: rest =>
          match params? rest with
          | none => none
          | some (ps, shown') => some ((name, v.said) :: ps, shown ++ ';' :: shown')
        | _ => none
  | _ => none
termination_by t.length
decreasing_by
  have h₁ := length_behind_le _hvalue
  have h₂ : ((t.dropWhile (· == ' ')).dropWhile isTokenChar).length ≤ t.length :=
    Nat.le_trans (List.dropWhile_sublist _).length_le (List.dropWhile_sublist _).length_le
  rw [_hname, List.length_cons] at h₂
  rw [_hrest, List.length_cons] at h₁
  omega

/-- Reads a media type. -/
def ofText? (t : Text) : Option MediaType :=
  let type := Text.lower (t.takeWhile isTokenChar)
  match t.dropWhile isTokenChar with
  | '/' :: behind =>
    let subtype := Text.lower (behind.takeWhile isTokenChar)
    let text := type ++ '/' :: subtype
    if type.isEmpty then none
    else
      match behind.dropWhile isTokenChar with
      | [] => some { type, subtype, text }
      | ';' :: rest =>
        if subtype.isEmpty then none
        else
          match params? rest with
          | none => none
          | some ([], _) => some { type, subtype, text }
          | some (params, shown) => some { type, subtype, params, text := text ++ ';' :: shown }
      | _ => none
  | _ => none

/-- The first parameter of a name, in any letter case. -/
def param? (m : MediaType) (name : Text) : Option Text :=
  (m.params.find? fun p => Text.sameIgnoringCase p.1 name).map (·.2)

/-- The boundary of a multipart type. -/
def multipartBoundary? (m : MediaType) : Option Text :=
  if m.type = "multipart".toList then m.param? "boundary".toList else none

end MediaType

end HttpWire
