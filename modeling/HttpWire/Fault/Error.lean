import HttpWire.Text.Quoted
import HttpWire.Field.Name
import HttpWire.Field.Value

/-!
# Errors

A transport reports an error by a kind, which a program can act on, and a message for people.

Every way in which reading a message, sending one or serving a connection can fail, as a cause
with the data that the wording needs.  The wording itself stands in the `message` functions and
nowhere else.  A `described` cause carries words of its own; it serves code outside the library
that reports through the same types.
-/

namespace HttpWire

/-! ### Transports -/

/-- What kind of trouble a transport is in. -/
inductive IoErrorKind
  | other
  | notConnected
  | unexpectedEof
  | invalidData
  | writeZero
deriving DecidableEq

/-- An error of a transport. -/
structure IoError where
  kind : IoErrorKind := .other
  message : Text
deriving DecidableEq

/-- A write that accepted nothing. -/
def IoError.writeZero : IoError :=
  { kind := .writeZero, message := "write zero".toList }

/-! ### Lines -/

/-- The characters that lines are made of. -/
inductive LineCharset
  /-- Only ASCII is accepted. -/
  | ascii
  /-- UTF-8, with U+FFFD for whatever is none. -/
  | utf8
deriving DecidableEq

/-- The name of a character set in messages. -/
def LineCharset.label : LineCharset → Text
  | .ascii => "ascii".toList
  | .utf8 => "utf8".toList

/-! ### Causes -/

/-- What can be wrong with a header field. -/
inductive HeaderFault
  | missingColon (line : Text)
  | badName (name : Text)
  | badValue (name : FieldName)
  | danglingEscape
  | unclosedQuote
  | lineBreakInCookie (cookie : Text)
  | described (reason : Text)
deriving DecidableEq

/-- The wording of a header fault. -/
def HeaderFault.message : HeaderFault → Text
  | .missingColon line => "missing colon in ".toList ++ line.quoted
  | .badName name => "invalid header name ".toList ++ name.quoted
  | .badValue name => "invalid value for header ".toList ++ name.text
  | .danglingEscape => "quoted string ends on an escape sequence".toList
  | .unclosedQuote => "quoted string is missing the closing quotation mark".toList
  | .lineBreakInCookie cookie => "line break in cookie ".toList ++ cookie.quoted
  | .described reason => reason

/-- What can be wrong with a content length. -/
inductive LengthFault
  | notALength (value : FieldValue)
  | described (reason : Text)
deriving DecidableEq

/-- The wording of a fault in a content length. -/
def LengthFault.message : LengthFault → Text
  | .notALength value => Bytes.quoted value.bytes ++ " is not a length".toList
  | .described reason => reason

/-- What can be wrong with a chunked body. -/
inductive ChunkFault
  | missingSize
  | badSizeLine (line : Text)
  | sizeOverflow
  | missingLineBreak
  | described (reason : Text)
deriving DecidableEq

/-- The wording of a fault in a chunked body. -/
def ChunkFault.message : ChunkFault → Text
  | .missingSize => "chunk size line has no size".toList
  | .badSizeLine line => "invalid chunk size line ".toList ++ line.quoted
  | .sizeOverflow => "invalid overflow chunked length".toList
  | .missingLineBreak => "chunk data is not followed by a line break".toList
  | .described reason => reason

/-- What can be wrong with a multipart body. -/
inductive MultipartFault
  | noDelimiter (boundary : Text)
  | described (reason : Text)
deriving DecidableEq

/-- The wording of a fault in a multipart body. -/
def MultipartFault.message : MultipartFault → Text
  | .noDelimiter boundary => "no delimiter for boundary ".toList ++ boundary.quoted
  | .described reason => reason

/-- A read that a reader does not offer. -/
inductive UnsupportedRead
  | exactlyOfChunked (count : Nat)
  | described (reason : Text)
deriving DecidableEq

/-- The wording for a read that is not offered. -/
def UnsupportedRead.message : UnsupportedRead → Text
  | .exactlyOfChunked count =>
    "chunked payload can only be read to the end, asked for ".toList ++ Text.ofNat count ++
      " bytes".toList
  | .described reason => reason

/-! ### Errors of the three layers -/

/-- Why reading a message failed. -/
inductive ReceiveError
  | header (fault : HeaderFault)
  | contentLength (fault : LengthFault)
  | chunk (fault : ChunkFault)
  | multipart (fault : MultipartFault)
  | undecodable (charset : LineCharset)
  | truncated (expected actual : Nat)
  | unsupported (read : UnsupportedRead)
  | io (error : IoError)
deriving DecidableEq

namespace ReceiveError

/-- The wording of an error of reading. -/
def message : ReceiveError → Text
  | .header fault => "invalid header: ".toList ++ fault.message
  | .contentLength fault => "invalid content-length header: ".toList ++ fault.message
  | .chunk fault => "invalid chunked body: ".toList ++ fault.message
  | .multipart fault => "invalid multipart body: ".toList ++ fault.message
  | .undecodable charset => "line is not valid ".toList ++ charset.label ++ " text".toList
  | .truncated expected actual =>
    "stream ended after ".toList ++ Text.ofNat actual ++ " of ".toList ++ Text.ofNat expected ++
      " bytes".toList
  | .unsupported read => "unsupported read: ".toList ++ read.message
  | .io error => "io error: ".toList ++ error.message

/-- Whether the peer sent fewer octets than announced. -/
def isTruncated : ReceiveError → Bool
  | .truncated _ _ => true
  | _ => false

end ReceiveError

/-- Why sending a response failed. -/
inductive SendError
  | header (fault : HeaderFault)
  | io (error : IoError)
deriving DecidableEq

/-- The wording of an error of sending. -/
def SendError.message : SendError → Text
  | .header fault => "invalid header: ".toList ++ fault.message
  | .io error => "io error: ".toList ++ error.message

/-- Why serving a connection failed. -/
inductive ServeError
  | request (error : ReceiveError)
  | response (error : SendError)
  | handshake (error : IoError)
  /-- The handshake did not finish within that many milliseconds. -/
  | handshakeTimeout (limit : Nat)
deriving DecidableEq

/-- The wording of an error of serving. -/
def ServeError.message : ServeError → Text
  | .request error => "request error: ".toList ++ error.message
  | .response error => "response error: ".toList ++ error.message
  | .handshake error => "tls handshake error: ".toList ++ error.message
  | .handshakeTimeout limit =>
    "tls handshake did not finish within ".toList ++ Text.ofMillis limit

end HttpWire
