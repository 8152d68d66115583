import HttpWire.Cookies
import HttpWire.Fault.Error
import HttpWire.Response.Basic

/-!
# Replies on the wire

A reply is a response together with what only the connection knows: the protocol of the request,
whether the connection is kept, and the cookies.  It is written as a status line, the fields of
the response, the length of its body, what becomes of the connection, the changed cookies, an
empty line and the body.  Fields of the response for length and connection are left out.

A cookie with a line break cannot be written.  Writing then fails at that cookie, and what was
written before it has been written: every function here returns the octets next to its verdict.
-/

namespace HttpWire

/-- A response and what else its head tells. -/
structure Reply where
  /-- The protocol token of the request; `HTTP/1.1` stands in for an empty one. -/
  protocol : Text := []
  response : Response
  keepAlive : Bool
  cookies : Option CookieJar := none

namespace Reply

/-- The octets that end a line of a head. -/
def lineEnd : Bytes := [carriageReturn, lineFeed]

/-- A field as a line. -/
def fieldLine (name : Text) (value : Bytes) : Bytes :=
  Utf8.encode (name ++ ": ".toList) ++ value ++ lineEnd

/-- The status line. -/
def statusLine (r : Reply) : Bytes :=
  let protocol := if r.protocol.isEmpty then "HTTP/1.1".toList else r.protocol
  let status := r.response.status
  Utf8.encode (protocol ++ ' ' :: Text.ofNat status.code ++ ' ' :: status.phrase) ++ lineEnd

/-- The fields of the response that are written as they are. -/
def ownFields (r : Reply) : List Field :=
  r.response.headers.toList.filter fun f => f.name ≠ .contentLength ∧ f.name ≠ .connection

/-- The line that tells the length of the body. -/
def lengthLine (r : Reply) : Bytes :=
  fieldLine FieldName.contentLength.text (Utf8.encode (Text.ofNat r.response.body.length))

/-- The line that tells what becomes of the connection. -/
def connectionLine (r : Reply) : Bytes :=
  fieldLine FieldName.connection.text
    (Utf8.encode (if r.keepAlive then "keep-alive".toList else "close".toList))

/-- The lines before those of the cookies. -/
def fixedLines (r : Reply) : Bytes :=
  r.statusLine ++ r.ownFields.flatMap (fun f => fieldLine f.name.text f.value.bytes) ++
    r.lengthLine ++ r.connectionLine

/-- Whether a cookie would break its line. -/
def hasLineBreak (cookie : Text) : Bool :=
  cookie.any fun c => c == '\r' || c == '\n'

/-- The lines of the cookies, up to the first that would break its line. -/
def cookieLines : List Text → Except SendError Unit × Bytes
  | [] => (.ok (), [])
  | cookie :: rest =>
    if hasLineBreak cookie then (.error (.header (.lineBreakInCookie cookie)), [])
    else
      let (result, lines) := cookieLines rest
      (result, fieldLine FieldName.setCookie.text (Utf8.encode cookie) ++ lines)

/-- What is sent for the changed cookies. -/
def setCookies (r : Reply) : List Text :=
  (r.cookies.map CookieJar.setCookies).getD []

/-- The head as octets. -/
def encodeHead (r : Reply) : Except SendError Unit × Bytes :=
  match cookieLines r.setCookies with
  | (.error e, lines) => (.error e, r.fixedLines ++ lines)
  | (.ok (), lines) => (.ok (), r.fixedLines ++ lines ++ lineEnd)

/-- The whole reply as octets. -/
def encode (r : Reply) : Except SendError Unit × Bytes :=
  match r.encodeHead with
  | (.error e, octets) => (.error e, octets)
  | (.ok (), octets) => (.ok (), octets ++ r.response.body)

end Reply

end HttpWire
