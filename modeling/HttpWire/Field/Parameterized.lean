import HttpWire.Field.QuotedString

/-!
# Values with parameters

Some field values are a base followed by parameters, as in
`form-data; name="file"; filename="a \"b\".txt"`.  The base and the value of each parameter follow
one rule (`readItem`): either a quoted string, behind which anything up to the next semicolon is
passed over, or what stands before the next semicolon, without white space around it.  A parameter
without `=` has an empty value.
-/

namespace HttpWire

/-- A base with named parameters. -/
structure Parameterized where
  base : Text
  params : List (Text × Text) := []
deriving DecidableEq

namespace Parameterized

/-- The first parameter of a name, in any letter case. -/
def param? (v : Parameterized) (name : Text) : Option Text :=
  (v.params.find? fun p => Text.sameIgnoringCase p.1 name).map (·.2)

/-- A parameter as it is written, its value quoted. -/
def paramText (name value : Text) : Text :=
  "; ".toList ++ name ++ '=' :: QuotedString.encode value

/-- The value as field text, every parameter quoted. -/
def toText (v : Parameterized) : Text :=
  v.base ++ v.params.flatMap fun (name, value) => paramText name value

/-! ### Reading -/

/-- The part before the first semicolon and the part behind it. -/
def cutSemicolon (t : Text) : Text × Text :=
  cutFirst (· == ';') t

/-- Reads a base or the value of a parameter: what it says, and what lies behind the semicolon that
ends it. -/
def readItem (t : Text) : Except HeaderFault (Text × Text) :=
  match QuotedString.read t with
  | .error e => .error e
  | .ok (.quoted said behind) => .ok (said, (cutSemicolon behind).2)
  | .ok .plain => .ok (Text.trim (cutSemicolon t).1, (cutSemicolon t).2)

theorem length_le_of_readItem {t said behind : Text} (h : readItem t = .ok (said, behind)) :
    behind.length ≤ t.length := by
  unfold readItem at h
  split at h
  · cases h
  · next behind hq =>
    cases h
    exact Nat.le_trans (length_cutFirst_snd_le _ behind) (QuotedString.length_le_of_read hq)
  · cases h
    exact length_cutFirst_snd_le _ t

/-- A parameter written without `=`, if there is a name at all. -/
def flag (name : Text) : List (Text × Text) :=
  let name := Text.trim name
  if name.isEmpty then [] else [(name, [])]

/-- Reads the parameters behind a base. -/
def readParams (t : Text) : Except HeaderFault (List (Text × Text)) :=
  match _hcut : splitFirst (fun c => c == '=' || c == ';') t with
  | none => .ok (flag t)
  | some (before, ';', after) => (readParams after).map (flag before ++ ·)
  | some (before, _, after) =>
    match _hitem : readItem after with
    | .error e => .error e
    | .ok (value, behind) => (readParams behind).map ((Text.trim before, value) :: ·)
termination_by t.length
decreasing_by
  · exact length_lt_of_splitFirst _hcut
  · exact Nat.lt_of_le_of_lt (length_le_of_readItem _hitem) (length_lt_of_splitFirst _hcut)

/-- Reads a field value with parameters. -/
def ofText (t : Text) : Except HeaderFault Parameterized :=
  match readItem t with
  | .error e => .error e
  | .ok (base, behind) => (readParams behind).map (Parameterized.mk base)

end Parameterized

end HttpWire
