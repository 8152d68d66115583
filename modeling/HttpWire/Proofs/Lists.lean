import Mathlib.Data.List.Induction

/-!
# Laws of lists

What is used of lists in several places: lists without repetitions, and what stands where in a list
that was changed in one place.
-/

namespace HttpWire

/-! ### Lists without repetitions -/

section

variable {α : Type} [BEq α] [LawfulBEq α]

/-- What stands at the end counts if it has not been there. -/
theorem eraseDups_concat (xs : List α) (x : α) :
    (xs ++ [x]).eraseDups = if x ∈ xs then xs.eraseDups else xs.eraseDups ++ [x] := by
  rw [List.eraseDups_append, List.removeAll]
  by_cases h : x ∈ xs
  · simp [h]
  · simp [h, List.eraseDups_cons]

theorem nodup_eraseDups (xs : List α) : xs.eraseDups.Nodup := by
  induction xs using List.reverseRecOn with
  | nil => exact List.nodup_nil
  | append_singleton xs x ih =>
    rw [eraseDups_concat]
    split
    · exact ih
    · next h =>
      refine List.nodup_append.mpr ⟨ih, by simp, ?_⟩
      intro y hy last hlast
      rw [List.mem_singleton.mp hlast]
      rintro rfl
      exact h (List.mem_eraseDups.mp hy)

end

/-! ### Changed lists -/

section

variable {α : Type} {xs : List α} {i j : Nat} {x y : α}

/-- What stands in a list that was changed in one place is the new thing or was there before. -/
theorem getElem?_set_cases (h : (xs.set i x)[j]? = some y) :
    j = i ∧ y = x ∨ j ≠ i ∧ xs[j]? = some y := by
  rw [List.getElem?_set] at h
  by_cases hij : i = j
  · rw [if_pos hij, Option.ite_none_right_eq_some] at h
    exact .inl ⟨hij.symm, (Option.some.inj h.2).symm⟩
  · rw [if_neg hij] at h
    exact .inr ⟨Ne.symm hij, h⟩

/-- What stands in a list with something at its end is that or was there before. -/
theorem getElem?_concat_cases (h : (xs ++ [x])[j]? = some y) :
    j = xs.length ∧ y = x ∨ xs[j]? = some y := by
  by_cases hlt : j < xs.length
  · rw [List.getElem?_append_left hlt] at h
    exact .inr h
  · rw [List.getElem?_append_right (Nat.le_of_not_lt hlt), List.getElem?_singleton,
      Option.ite_none_right_eq_some] at h
    exact .inl ⟨by omega, (Option.some.inj h.2).symm⟩

/-- What stands in a list stands there if something is added at the end. -/
theorem getElem?_append_of_some (h : xs[i]? = some y) (ys : List α) : (xs ++ ys)[i]? = some y := by
  obtain ⟨hlt, -⟩ := List.getElem?_eq_some_iff.mp h
  exact (List.getElem?_append_left hlt).trans h

/-- What was changed is what stands there. -/
theorem getElem?_set_of_some (h : xs[i]? = some y) (x : α) : (xs.set i x)[i]? = some x := by
  obtain ⟨hlt, -⟩ := List.getElem?_eq_some_iff.mp h
  exact List.getElem?_set_self hlt

/-- What stands in a list with something at its end is that, or stands in front of it. -/
theorem concat_eq_append_cons_cases {front behind : List α} (h : xs ++ [x] = front ++ y :: behind) :
    (front = xs ∧ y = x ∧ behind = []) ∨
      ∃ between, xs = front ++ y :: between ∧ behind = between ++ [x] := by
  rcases List.eq_nil_or_concat behind with rfl | ⟨between, z, hbehind⟩
  · obtain ⟨rfl, hx⟩ := List.append_inj' h rfl
    exact .inl ⟨rfl, (List.cons.inj hx).1.symm, rfl⟩
  · rw [List.concat_eq_append] at hbehind
    subst hbehind
    have h' : xs ++ [x] = (front ++ y :: between) ++ [z] := by
      rw [h, List.append_assoc, List.cons_append]
    obtain ⟨hxs, hx⟩ := List.append_inj' h' rfl
    rw [(List.cons.inj hx).1]
    exact .inr ⟨between, hxs, rfl⟩

/-- A value that the change leaves alone is the same in all places. -/
theorem map_set_of_some {β : Type} {f : α → β} (h : xs[i]? = some y) (hf : f x = f y) :
    (xs.set i x).map f = xs.map f := by
  obtain ⟨hlt, rfl⟩ := List.getElem?_eq_some_iff.mp h
  rw [List.map_set, hf, ← List.map_set, List.set_getElem_self]

end

end HttpWire
