import HttpWire.Proofs.Text.Case
import HttpWire.Version.Resolver

/-!
# Resolvers that read tokens as they are meant

A resolver is faithful if it accepts a token exactly when `Version.ofToken` does, with the same
version, and stays faithful.  What it says of a token that it refuses is left open: the cache shows
the first spelling of a bad token, not the one that was asked for.

The parser is always faithful.  The cache is if what it remembers under a token in small letters is
what the token means (`CachingResolver.Sound`), because the case of letters makes no difference to
the version (`Version.ofToken_lower`).
-/

namespace HttpWire

/-- A resolver with states in which it reads tokens as they are meant. -/
class FaithfulResolver (υ : Type) [VersionResolver υ] where
  Faithful : υ → Prop
  resolve_eq_ok_iff : ∀ {versions : υ} {token : Text} {v : Version}, Faithful versions →
    ((VersionResolver.resolve token versions).1 = .ok v ↔ Version.ofToken token = .ok v)
  faithful_resolve : ∀ {versions : υ} (token : Text), Faithful versions →
    Faithful (VersionResolver.resolve token versions).2

open FaithfulResolver (Faithful)

/-! ### The parser -/

instance : FaithfulResolver TokenParser where
  Faithful _ := True
  resolve_eq_ok_iff _ := Iff.rfl
  faithful_resolve _ _ := trivial

instance {υ : Type} [VersionResolver υ] [FaithfulResolver υ] :
    FaithfulResolver (CountingResolver υ) where
  Faithful versions := Faithful versions.inner
  resolve_eq_ok_iff h := FaithfulResolver.resolve_eq_ok_iff (υ := υ) h
  faithful_resolve token h := FaithfulResolver.faithful_resolve (υ := υ) token h

/-! ### Letter case -/

namespace Version

theorem number?_lower (digits : Text) : number? (Text.lower digits) = number? digits := by
  rw [number?, number?, Text.toNat?_lower]

theorem ofNumbers?_lower (numbers : Text) :
    ofNumbers? (Text.lower numbers) = ofNumbers? numbers := by
  rw [ofNumbers?, ofNumbers?, Text.splitFirst_lower (by decide)]
  cases splitFirst (· == '.') numbers with
  | none => simp only [Option.map_none, number?_lower]
  | some parts => simp only [Option.map_some, number?_lower]

/-- Two spellings of a token that differ in letter case mean the same version. -/
theorem ofToken_lower {token : Text} {v : Version} :
    ofToken (Text.lower token) = .ok v ↔ ofToken token = .ok v := by
  have hempty : (Text.lower token).isEmpty = token.isEmpty := List.isEmpty_map
  have htake : (Text.lower token).take 5 = Text.lower (token.take 5) := List.map_take.symm
  have hdrop : (Text.lower token).drop 5 = Text.lower (token.drop 5) := List.map_drop.symm
  rw [ofToken, ofToken, hempty, htake, hdrop, ofNumbers?_lower, Text.sameIgnoringCase,
    Text.lower_lower, ← Text.sameIgnoringCase]
  split
  · rfl
  · split
    · cases ofNumbers? (token.drop 5) <;> simp
    · simp

end Version

/-! ### The cache -/

namespace CachingResolver

variable {υ : Type} [VersionResolver υ] [FaithfulResolver υ] {c : CachingResolver υ}

/-- What is remembered under a token in small letters is what the token means. -/
structure Sound (c : CachingResolver υ) : Prop where
  inner : Faithful c.inner
  slots : ∀ slot ∈ c.slots, ∀ v, slot.2 = .ok v ↔ Version.ofToken slot.1 = .ok v

/-- A cache that remembers nothing is sound over a faithful resolver. -/
theorem sound_of_inner {inner : υ} (h : Faithful inner) : Sound { inner } :=
  ⟨h, by simp⟩

theorem resolve_eq_ok_iff {token : Text} {v : Version} (hc : c.Sound) :
    (resolve token c).1 = .ok v ↔ Version.ofToken token = .ok v := by
  unfold resolve
  cases hs : c.slot? token with
  | none => exact FaithfulResolver.resolve_eq_ok_iff hc.inner
  | some answer =>
    rw [slot?, Option.map_eq_some_iff] at hs
    obtain ⟨slot, hfind, rfl⟩ := hs
    have hkey : slot.1 = Text.lower token := by simpa using List.find?_some hfind
    rw [← Version.ofToken_lower, ← hkey]
    exact hc.slots slot (List.mem_of_find?_eq_some hfind) v

theorem sound_resolve (token : Text) (hc : c.Sound) : (resolve token c).2.Sound := by
  unfold resolve
  cases c.slot? token with
  | some answer => exact hc
  | none =>
    refine ⟨FaithfulResolver.faithful_resolve token hc.inner, ?_⟩
    intro slot hslot v
    rcases List.mem_append.mp hslot with hold | hnew
    · exact hc.slots slot hold v
    · obtain rfl := List.mem_singleton.mp hnew
      rw [Version.ofToken_lower]
      exact FaithfulResolver.resolve_eq_ok_iff hc.inner

instance : FaithfulResolver (CachingResolver υ) where
  Faithful := Sound
  resolve_eq_ok_iff := resolve_eq_ok_iff
  faithful_resolve := sound_resolve

end CachingResolver

end HttpWire
