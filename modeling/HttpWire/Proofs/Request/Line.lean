import HttpWire.Proofs.Text.Split
import HttpWire.Request.Receive

/-!
# Laws of request lines

A request line is cut at its first and its last space, and nothing but the white space around the
target is lost (`RequestLine.ofText?_eq_some_iff`).  Without two spaces it cannot be cut
(`RequestLine.ofText?_eq_none_iff`).
-/

namespace HttpWire.RequestLine

variable {line before token : Text} {parts : RequestLine}

/-- A line is cut at its first and its last space. -/
theorem ofText?_eq_some_iff :
    ofText? line = some parts ↔
      ∃ target, line = parts.method ++ ' ' :: (target ++ ' ' :: parts.protocol) ∧
        ' ' ∉ parts.method ∧ ' ' ∉ parts.protocol ∧ parts.target = Text.trim target := by
  constructor
  · intro h
    rw [ofText?] at h
    cases hfirst : splitFirst (· == ' ') line with
    | none =>
      rw [hfirst] at h
      cases h
    | some cut =>
      obtain ⟨method, sep, behind⟩ := cut
      rw [hfirst] at h
      simp only at h
      cases hlast : splitLast (· == ' ') behind with
      | none =>
        rw [hlast] at h
        cases h
      | some cut =>
        obtain ⟨target, sep', protocol⟩ := cut
        rw [hlast] at h
        cases h
        obtain ⟨rfl, rfl, hmethod⟩ := splitFirst_beq_eq_some_iff.mp hfirst
        obtain ⟨rfl, hsep, hprotocol⟩ := splitLast_eq_some hlast
        obtain rfl : sep' = ' ' := beq_iff_eq.mp hsep
        exact ⟨target, rfl, hmethod, forall_beq_eq_false_iff.mp hprotocol, rfl⟩
  · obtain ⟨method, target, protocol⟩ := parts
    rintro ⟨target, rfl, hmethod, hprotocol, rfl⟩
    have hfirst : splitFirst (· == ' ') (method ++ ' ' :: (target ++ ' ' :: protocol)) = _ :=
      splitFirst_beq_append_cons hmethod
    have hlast : splitLast (· == ' ') (target ++ ' ' :: protocol) = _ :=
      splitLast_append_cons rfl (forall_beq_eq_false_iff.mpr hprotocol)
    simp only [ofText?, hfirst, hlast]

/-- A line with fewer than two spaces cannot be cut. -/
theorem ofText?_eq_none_iff : ofText? line = none ↔ line.count ' ' < 2 := by
  cases hparts : ofText? line with
  | some parts =>
    obtain ⟨target, rfl, -⟩ := ofText?_eq_some_iff.mp hparts
    simp only [List.count_append, List.count_cons_self, reduceCtorEq, false_iff]
    omega
  | none =>
    rw [ofText?] at hparts
    cases hfirst : splitFirst (· == ' ') line with
    | none =>
      have hno : ' ' ∉ line := splitFirst_beq_eq_none_iff.mp hfirst
      simp [List.count_eq_zero_of_not_mem hno]
    | some cut =>
      obtain ⟨method, sep, behind⟩ := cut
      rw [hfirst] at hparts
      simp only at hparts
      cases hlast : splitLast (· == ' ') behind with
      | some cut =>
        rw [hlast] at hparts
        cases hparts
      | none =>
        obtain ⟨rfl, rfl, hmethod⟩ := splitFirst_beq_eq_some_iff.mp hfirst
        have hbehind : ' ' ∉ behind := forall_beq_eq_false_iff.mp (splitLast_eq_none_iff.mp hlast)
        simp [List.count_eq_zero_of_not_mem hmethod, List.count_eq_zero_of_not_mem hbehind]

/-- The token of a line stands behind its last space. -/
theorem protocol_eq (htoken : ' ' ∉ token)
    (h : ofText? (before ++ ' ' :: token) = some parts) : parts.protocol = token := by
  obtain ⟨target, hline, -, hprotocol, -⟩ := ofText?_eq_some_iff.mp h
  have hcut : splitLast (· == ' ') (before ++ ' ' :: token) = some (before, ' ', token) :=
    splitLast_append_cons rfl (forall_beq_eq_false_iff.mpr htoken)
  have hcut' : splitLast (· == ' ') (before ++ ' ' :: token) =
      some (parts.method ++ ' ' :: target, ' ', parts.protocol) := by
    rw [hline, ← List.cons_append, ← List.append_assoc]
    exact splitLast_append_cons rfl (forall_beq_eq_false_iff.mpr hprotocol)
  exact congrArg (·.2.2) (Option.some.inj (hcut'.symm.trans hcut))

end HttpWire.RequestLine
