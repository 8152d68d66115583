import HttpWire.Version.Basic

/-!
# Resolving protocol tokens

A resolver answers protocol tokens with versions and may change in doing so.  The one that matters
is `CachingResolver`: it asks another resolver once for each token up to letter case and repeats
that answer ever after, a refusal included.  So of several spellings of a bad token the first is
the one that the errors show.
-/

namespace HttpWire

/-- Something that answers protocol tokens. -/
class VersionResolver (υ : Type) where
  resolve : Text → υ → Except VersionError Version × υ

/-- Reads every token anew. -/
structure TokenParser where

instance : VersionResolver TokenParser where
  resolve token p := (Version.ofToken token, p)

/-- Knows a few tokens, letter for letter. -/
structure KnownVersions where
  table : List (Text × Version)

/-- The version of the first entry with that token. -/
def KnownVersions.lookup (known : KnownVersions) (token : Text) : Except VersionError Version :=
  match known.table.find? (·.1 == token) with
  | some (_, v) => .ok v
  | none => .error ⟨token⟩

instance : VersionResolver KnownVersions where
  resolve token known := (known.lookup token, known)

/-- Counts the questions to another resolver. -/
structure CountingResolver (υ : Type) where
  inner : υ
  calls : Nat := 0

instance {υ : Type} [VersionResolver υ] : VersionResolver (CountingResolver υ) where
  resolve token p :=
    let (answer, inner) := VersionResolver.resolve token p.inner
    (answer, { inner, calls := p.calls + 1 })

/-- Remembers the answers of another resolver. -/
structure CachingResolver (υ : Type) where
  inner : υ
  /-- The answers so far, by the token in small letters. -/
  slots : List (Text × Except VersionError Version) := []

namespace CachingResolver

variable {υ : Type} [VersionResolver υ]

/-- The remembered answer for a token. -/
def slot? (c : CachingResolver υ) (token : Text) : Option (Except VersionError Version) :=
  (c.slots.find? (·.1 == Text.lower token)).map (·.2)

/-- The remembered answer, or a new one that is remembered. -/
def resolve (token : Text) (c : CachingResolver υ) :
    Except VersionError Version × CachingResolver υ :=
  match c.slot? token with
  | some answer => (answer, c)
  | none =>
    let (answer, inner) := VersionResolver.resolve token c.inner
    (answer, { inner, slots := c.slots ++ [(Text.lower token, answer)] })

instance : VersionResolver (CachingResolver υ) where
  resolve := resolve

end CachingResolver

end HttpWire
