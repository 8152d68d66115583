import HttpWire.Headers

/-!
# Cookies

A jar starts with the cookies that a client sent and takes the changes that are made while its
request is handled.  A change goes to the first cookie of the name, a look-up finds the last one.
Only cookies that were changed are sent back; one that was made empty is sent as expired.
-/

namespace HttpWire

/-- A cookie, and whether it was changed here. -/
structure Cookie where
  name : Text
  value : Text
  touched : Bool := false
deriving DecidableEq

/-- The cookies of a request and the changes to them. -/
structure CookieJar where
  cookies : List Cookie := []
deriving DecidableEq

namespace CookieJar

/-- A `name=value` pair of a `Cookie` field, if it is one with a name. -/
def readPair? (pair : Text) : Option Cookie :=
  match splitFirst (· == '=') pair with
  | none => none
  | some (before, _, after) =>
    let name := Text.trim before
    if name.isEmpty then none else some { name, value := Text.trim after }

/-- The cookies of a request.  Values that are not text are passed over. -/
def ofHeaders (h : Headers) : CookieJar :=
  ⟨((h.getAll .cookie).filterMap FieldValue.text?).flatMap fun value =>
    (value.splitOn ';').filterMap readPair?⟩

/-- The value of the last cookie of a name. -/
def get? (jar : CookieJar) (name : Text) : Option Text :=
  (jar.cookies.reverse.find? (·.name == name)).map (·.value)

/-- Changes the first cookie of a name in a list, or adds one behind all. -/
def setIn (name value : Text) : List Cookie → List Cookie
  | [] => [{ name, value, touched := true }]
  | c :: rest =>
    if c.name = name then { name, value, touched := true } :: rest
    else c :: setIn name value rest

/-- Gives a cookie a value. -/
def set (jar : CookieJar) (name value : Text) : CookieJar :=
  ⟨setIn name value jar.cookies⟩

/-- Empties a cookie, which makes the client drop it. -/
def remove (jar : CookieJar) (name : Text) : CookieJar :=
  jar.set name []

/-- A changed cookie as it is sent. -/
def setCookieText (c : Cookie) : Text :=
  if c.value.isEmpty then c.name ++ "=; Max-Age=0".toList else c.name ++ '=' :: c.value

/-- What is sent for the changed cookies. -/
def setCookies (jar : CookieJar) : List Text :=
  (jar.cookies.filter (·.touched)).map setCookieText

end CookieJar

/-! ### Steps on a jar -/

/-- Something done to a jar. -/
inductive CookieStep
  | get (name : Text)
  | set (name value : Text)
  | remove (name : Text)
deriving DecidableEq

/-- Does a step: what a look-up found, and the jar behind the step. -/
def CookieJar.step (jar : CookieJar) : CookieStep → Option Text × CookieJar
  | .get name => (jar.get? name, jar)
  | .set name value => (none, jar.set name value)
  | .remove name => (none, jar.remove name)

end HttpWire
