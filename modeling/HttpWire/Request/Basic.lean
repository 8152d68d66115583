import HttpWire.Body.Basic
import HttpWire.Headers
import HttpWire.Version.Basic

/-!
# Requests

A request has a method, a target cut into path and query, header fields, the protocol token as it
was sent with the version it names, and a body.
-/

namespace HttpWire

/-- The method of a request, in the letter case it was sent. -/
structure Method where
  text : Text
  valid : isToken text = true
deriving DecidableEq

/-- Takes a text as a method. -/
def Method.ofText? (t : Text) : Option Method :=
  if h : isToken t = true then some ⟨t, h⟩ else none

/-- A request. -/
structure Request where
  method : Method
  /-- The target without its query. -/
  path : Text
  query : FormPairs
  headers : Headers
  /-- The protocol token as it was sent. -/
  protocol : Text
  version : Version
  body : Body
deriving DecidableEq

namespace Request

/-- A request for a target, whose query starts behind the first question mark. -/
def ofTarget (method : Method) (target protocol : Text) (version : Version) (headers : Headers)
    (body : Body) : Request :=
  let (path, query) := cutFirst (· == '?') target
  { method, path, query := FormPairs.ofBytes (Utf8.encode query), headers, protocol, version, body }

/-- The pieces of the path between slashes, without empty ones. -/
def segments (r : Request) : List Text :=
  (r.path.splitOn '/').filter (!·.isEmpty)

/-- The first value of a header field, if it is text. -/
def header? (r : Request) (name : Text) : Option Text :=
  ((FieldName.ofText? name).bind r.headers.get?).bind FieldValue.text?

/-- Whether the client asks for the connection to be kept. -/
def keepAlive (r : Request) : Bool :=
  r.headers.listsToken .connection "keep-alive".toList

end Request

end HttpWire
