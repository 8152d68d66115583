import HttpWire.Body.Multipart
import HttpWire.FormPairs

/-!
# Request bodies

A body is empty, a form, or multipart with the boundary that its media type announced.  Whatever
is not announced as multipart with a boundary counts as a form.
-/

namespace HttpWire

/-- The body of a request. -/
inductive Body
  | empty
  | form (raw : Bytes)
  | multipart (raw : Bytes) (boundary : Text)
deriving DecidableEq

namespace Body

/-- The octets of the body. -/
def raw : Body → Bytes
  | .empty => []
  | .form raw => raw
  | .multipart raw _ => raw

/-- Whether there are no octets. -/
def isEmpty (b : Body) : Bool :=
  b.raw.isEmpty

/-- The pairs of a form. -/
def pairs? : Body → Option FormPairs
  | .form raw => some (FormPairs.ofBytes raw)
  | _ => none

/-- The parts of a multipart body, if it can be cut into parts. -/
def parts? : Body → Option (Except ReceiveError Multipart)
  | .multipart raw boundary => some (Multipart.ofBytes raw boundary)
  | _ => none

/-- The body that octets are under such headers. -/
def ofBytes (raw : Bytes) (h : Headers) : Body :=
  if raw.isEmpty then .empty
  else
    match ((h.get? .contentType).bind FieldValue.text?).bind MediaType.ofText? with
    | none => .form raw
    | some type =>
      match type.multipartBoundary? with
      | none => .form raw
      | some boundary => .multipart raw boundary

end Body

end HttpWire
