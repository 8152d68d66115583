import HttpWire.Headers
import HttpWire.Response.Status

/-!
# Responses

A response has a status, header fields and a body, and may ask for the connection to be closed
behind it.  Length and connection fields are not its business: they are written from the body and
from what becomes of the connection.
-/

namespace HttpWire

/-- A response. -/
structure Response where
  status : Status
  headers : Headers := {}
  body : Bytes := []
  /-- Whether the connection is to be closed behind it. -/
  close : Bool := false
deriving DecidableEq

namespace Response

/-- The media type of plain text. -/
def plainText : FieldValue := ⟨Utf8.encode "text/plain; charset=utf-8".toList, by decide⟩

/-- The media type of a web page. -/
def html : FieldValue := ⟨Utf8.encode "text/html; charset=utf-8".toList, by decide⟩

/-- A response with a body of a media type. -/
def ofBody (status : Status) (mediaType : FieldValue) (body : Bytes) : Response :=
  { status, headers := Headers.empty.insert ⟨.contentType, mediaType⟩, body }

/-- A response with a plain text. -/
def ofText (status : Status) (t : Text) : Response :=
  ofBody status plainText (Utf8.encode t)

/-- A response with a web page. -/
def ofHtml (status : Status) (t : Text) : Response :=
  ofBody status html (Utf8.encode t)

/-- The response with one more field. -/
def append (r : Response) (f : Field) : Response :=
  { r with headers := r.headers.append f }

/-- The response with a field in place of all of its name. -/
def insert (r : Response) (f : Field) : Response :=
  { r with headers := r.headers.insert f }

end Response

end HttpWire
