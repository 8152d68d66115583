import HttpWire.Text.Blank
import HttpWire.Field.Name
import HttpWire.Field.Value

/-!
# Header fields

`Headers` holds fields in the order of their arrival.  The order in which they are listed is a
view of that (`toList`): one group per name, groups in the order of each name's first field, and
inside a group the order of arrival.  So appending is appending to a list, and looking a name up
is filtering.

There may be any number of names.  A hash map of fields with room for 24576 names, which gives up
on one more, is the same up to there.
-/

namespace HttpWire

/-- A header field. -/
structure Field where
  name : FieldName
  value : FieldValue
deriving DecidableEq

/-- Header fields in the order of their arrival. -/
structure Headers where
  fields : List Field := []
deriving DecidableEq

namespace Headers

/-- No fields. -/
def empty : Headers := {}

/-- Adds a field behind all others, however many names there are. -/
def append (h : Headers) (f : Field) : Headers :=
  ⟨h.fields ++ [f]⟩

/-- The values of a name, in the order of arrival. -/
def getAll (h : Headers) (name : FieldName) : List FieldValue :=
  (h.fields.filter (·.name = name)).map (·.value)

/-- The first value of a name. -/
def get? (h : Headers) (name : FieldName) : Option FieldValue :=
  (h.getAll name).head?

/-- Whether there is a field of that name. -/
def contains (h : Headers) (name : FieldName) : Bool :=
  (h.get? name).isSome

/-- The names, each once, in the order of their first fields. -/
def names (h : Headers) : List FieldName :=
  (h.fields.map (·.name)).eraseDups

/-- The fields grouped by name. -/
def toList (h : Headers) : List Field :=
  h.names.flatMap fun name => (h.getAll name).map (Field.mk name)

/-- Whether there is no field. -/
def isEmpty (h : Headers) : Bool :=
  h.fields.isEmpty

/-- Replaces the first of the fields that bear the name of `f` by `f` and drops the others. -/
def replaceIn (f : Field) : List Field → List Field
  | [] => [f]
  | g :: rest => if g.name = f.name then f :: rest.filter (·.name ≠ f.name) else g :: replaceIn f rest

/-- Makes `f` the only field of its name, in the place of the name's group if it has one. -/
def insert (h : Headers) (f : Field) : Headers :=
  ⟨replaceIn f h.fields⟩

/-! ### Lists of tokens -/

/-- Whether some value of the name, read as a comma-separated list, has the token in any letter
case.  Values that are not text are passed over. -/
def listsToken (h : Headers) (name : FieldName) (token : Text) : Bool :=
  ((h.getAll name).filterMap FieldValue.text?).any fun value =>
    (value.splitOn ',').any fun item => Text.sameIgnoringCase (Text.trim item) token

end Headers

end HttpWire
