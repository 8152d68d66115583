import HttpWire.Text.Basic

/-!
# Tokens and field names

A token is a run of ASCII letters, digits and the marks ``!#$%&'*+-.^_`|~``.  A field name is a
nonempty token of at most 65535 characters.  Names are equal up to letter case, so a `FieldName`
holds the small-letter form; that it is one is part of the type.
-/

namespace HttpWire

/-- Whether a character may stand in a token. -/
def isTokenChar (c : Char) : Bool :=
  c.isAlphanum || "!#$%&'*+-.^_`|~".toList.contains c

/-- Whether a text is a nonempty token. -/
def isToken (t : Text) : Bool :=
  !t.isEmpty && t.all isTokenChar

/-- The name of a header field, in small letters. -/
structure FieldName where
  text : Text
  valid : (isToken text && text.length ≤ 65535 && text.all (!·.isUpper)) = true
deriving DecidableEq

namespace FieldName

/-- Reads a name written in any letter case. -/
def ofText? (t : Text) : Option FieldName :=
  let small := Text.lower t
  if h : (isToken small && small.length ≤ 65535 && small.all (!·.isUpper)) = true then
    some ⟨small, h⟩
  else none

/-! ### Names with a meaning -/

/-- The number of octets of a body. -/
def contentLength : FieldName := ⟨"content-length".toList, by decide⟩

/-- The media type of a body. -/
def contentType : FieldName := ⟨"content-type".toList, by decide⟩

/-- The role and the name of a part of a form. -/
def contentDisposition : FieldName := ⟨"content-disposition".toList, by decide⟩

/-- Whether a connection is kept. -/
def connection : FieldName := ⟨"connection".toList, by decide⟩

/-- The codings put on a body for the transfer. -/
def transferEncoding : FieldName := ⟨"transfer-encoding".toList, by decide⟩

/-- The transfer codings and features that the sender accepts. -/
def te : FieldName := ⟨"te".toList, by decide⟩

/-- Cookies from a client. -/
def cookie : FieldName := ⟨"cookie".toList, by decide⟩

/-- A cookie for a client. -/
def setCookie : FieldName := ⟨"set-cookie".toList, by decide⟩

/-- The moment of a response. -/
def date : FieldName := ⟨"date".toList, by decide⟩

/-- The method that overrides the one of the request line. -/
def methodOverride : FieldName := ⟨"_method".toList, by decide⟩

end FieldName

end HttpWire
