import HttpWire.Address
import HttpWire.Cookies
import HttpWire.Request.Basic
import HttpWire.Response.Basic

/-!
# The context of a request

While a request is handled, its context holds the one response that there is so far and the
cookies.
-/

namespace HttpWire

/-- What is known while a request is handled. -/
structure Context where
  request : Request
  /-- The address of the client, if it has one. -/
  remote : Option Address
  response : Option Response := none
  cookies : CookieJar
deriving DecidableEq

/-- The context in which handling a request starts. -/
def Context.ofRequest (request : Request) (remote : Option Address) : Context :=
  { request, remote, cookies := CookieJar.ofHeaders request.headers }

end HttpWire
