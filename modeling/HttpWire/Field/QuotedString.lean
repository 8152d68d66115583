import HttpWire.Text.Blank
import HttpWire.Fault.Error

/-!
# Quoted strings

A quoted string is a double quote, possibly behind white space, then characters of which a
backslash takes the next one literally, up to the next quote.  `encode` writes one, `read`
recognises one at the start of a text and returns what lies behind it.
-/

namespace HttpWire.QuotedString

/-- A text inside quotes, with a backslash before each quote and each backslash. -/
def encode (t : Text) : Text :=
  '"' :: t.flatMap (fun c => if c = '"' || c = '\\' then ['\\', c] else [c]) ++ ['"']

/-- Reads the inside of a quoted string: what it says and what lies behind its closing quote. -/
def readInside : Text → Except HeaderFault (Text × Text)
  | [] => .error .unclosedQuote
  | '"' :: rest => .ok ([], rest)
  | '\\' :: [] => .error .danglingEscape
  | '\\' :: c :: rest => (readInside rest).map fun (said, behind) => (c :: said, behind)
  | c :: rest => (readInside rest).map fun (said, behind) => (c :: said, behind)

/-- What stands at the start of a text. -/
inductive Opening
  /-- No quoted string. -/
  | plain
  /-- A quoted string that says `said`, with `behind` after its closing quote. -/
  | quoted (said behind : Text)
deriving DecidableEq

/-- Looks for a quoted string at the start of a text. -/
def read (t : Text) : Except HeaderFault Opening :=
  match t.dropWhile Text.isBlank with
  | '"' :: rest => (readInside rest).map fun (said, behind) => .quoted said behind
  | _ => .ok .plain

/-- What `read` makes of a text: what the quoted string says and the octet index of its closing
quote, or the text itself. -/
def readIndexed (t : Text) : Except HeaderFault (Text × Option Nat) :=
  (read t).map fun
    | .plain => (t, none)
    | .quoted said behind => (said, some (Utf8.size t - Utf8.size behind - 1))

theorem length_le_of_readInside {t said behind : Text}
    (h : readInside t = .ok (said, behind)) : behind.length ≤ t.length := by
  fun_induction readInside t generalizing said behind with
  | case1 => cases h
  | case2 => cases h; simp
  | case3 => cases h
  | case4 c rest ih =>
    cases hr : readInside rest with
    | error e => rw [hr] at h; cases h
    | ok p => rw [hr] at h; cases h; have := ih hr; simp only [List.length_cons]; omega
  | case5 c rest _ _ _ ih =>
    cases hr : readInside rest with
    | error e => rw [hr] at h; cases h
    | ok p => rw [hr] at h; cases h; have := ih hr; simp only [List.length_cons]; omega

/-- What lies behind a quoted string is no longer than the text. -/
theorem length_le_of_read {t said behind : Text} (h : read t = .ok (.quoted said behind)) :
    behind.length ≤ t.length := by
  have hd : (t.dropWhile Text.isBlank).length ≤ t.length :=
    (List.dropWhile_sublist Text.isBlank).length_le
  unfold read at h
  split at h
  case h_1 rest heq =>
    cases hr : readInside rest with
    | error e => rw [hr] at h; cases h
    | ok p =>
      rw [hr] at h
      cases h
      have := length_le_of_readInside hr
      rw [heq, List.length_cons] at hd
      omega
  case h_2 => cases h

end HttpWire.QuotedString
