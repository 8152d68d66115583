import HttpWire.Text.Basic

/-!
# Cutting a list at a separator

`splitFirst` and `splitLast` cut a list at the first or the last element that satisfies a test and
return the part before it, the element itself and the part behind it.  `splitFirst_eq_some` says
that nothing is lost, and `length_lt_of_splitFirst` gives the measure of the loops over separated
items.
-/

namespace HttpWire

variable {α : Type}

/-- Cuts a list at the first element that satisfies `p`. -/
def splitFirst (p : α → Bool) : List α → Option (List α × α × List α)
  | [] => none
  | a :: as =>
    if p a then some ([], a, as)
    else (splitFirst p as).map fun (before, sep, after) => (a :: before, sep, after)

/-- Cuts a list at the last element that satisfies `p`. -/
def splitLast (p : α → Bool) : List α → Option (List α × α × List α)
  | [] => none
  | a :: as =>
    match splitLast p as with
    | some (before, sep, after) => some (a :: before, sep, after)
    | none => if p a then some ([], a, as) else none

/-- The part before the first element that satisfies `p` and the part behind it, which is empty if
there is no such element. -/
def cutFirst (p : α → Bool) (l : List α) : List α × List α :=
  match splitFirst p l with
  | none => (l, [])
  | some (before, _, after) => (before, after)

/-- Removes the longest trailing run of elements that satisfy `p`. -/
def dropTrailing (p : α → Bool) (l : List α) : List α :=
  (l.reverse.dropWhile p).reverse

/-- A successful cut puts the list together again. -/
theorem splitFirst_eq_some {p : α → Bool} {l before after : List α} {sep : α}
    (h : splitFirst p l = some (before, sep, after)) : l = before ++ sep :: after := by
  induction l generalizing before with
  | nil => simp [splitFirst] at h
  | cons a as ih =>
    by_cases ha : p a
    · simp only [splitFirst, ha, if_true, Option.some.injEq, Prod.mk.injEq] at h
      obtain ⟨rfl, rfl, rfl⟩ := h
      rfl
    · rw [splitFirst, if_neg ha, Option.map_eq_some_iff] at h
      obtain ⟨⟨b, s, c⟩, hs, heq⟩ := h
      obtain ⟨rfl, rfl, rfl⟩ := heq
      rw [ih hs, List.cons_append]

/-- What lies behind the separator is shorter than the list. -/
theorem length_lt_of_splitFirst {p : α → Bool} {l before after : List α} {sep : α}
    (h : splitFirst p l = some (before, sep, after)) : after.length < l.length := by
  rw [splitFirst_eq_some h, List.length_append, List.length_cons]
  omega

theorem length_cutFirst_snd_le (p : α → Bool) (l : List α) :
    (cutFirst p l).2.length ≤ l.length := by
  unfold cutFirst
  split
  · exact Nat.zero_le _
  · next h => exact Nat.le_of_lt (length_lt_of_splitFirst h)

end HttpWire
