import HttpWire.Pipeline.Basic

/-!
# Middleware that leaves marks

These stages make the way of a request through a pipeline visible: a traced stage leaves a mark
when it is entered and one when it is left.  Their bodies cover what a stage can do: go on, go on
twice, wait, cancel, answer, change the answer of what follows, take it away, and use the
cookies.
-/

namespace HttpWire.Middleware

/-- Leaves a mark. -/
def leaveMark (m : Mark) : Handler :=
  .act (.mark m)

/-- A stage whose body stands between a mark of entry and a mark of leaving. -/
def traced (id : Nat) (body : Next → Handler) : Middleware where
  handle next :=
    (leaveMark (.entered id next.isEmpty)).andThen <| (body next).andThen fun c =>
      leaveMark (.left id (c.response.map (·.status))) c

/-- Sets the response. -/
def setResponse (r : Response) : Handler :=
  .change fun c => { c with response := some r }

/-- Goes on. -/
def pass (id : Nat) : Middleware :=
  traced id (·.run)

/-- Goes on twice. -/
def twice (id : Nat) : Middleware :=
  traced id fun next => next.run.andThen next.run

/-- Waits, then goes on. -/
def delay (id ms : Nat) : Middleware :=
  traced id fun next => (Handler.act (.pause ms)).andThen next.run

/-- Cancels the work of the server, then goes on. -/
def cancel (id : Nat) : Middleware :=
  traced id fun next => (Handler.act .cancel).andThen next.run

/-- Answers with a response.  Its only mark is that it answered. -/
def respond (id : Nat) (r : Response) : Middleware where
  handle _ := (leaveMark (.responded id)).andThen (setResponse r)

/-- The media type of octets without a known meaning. -/
def octetStream : FieldValue := ⟨Utf8.encode "application/octet-stream".toList, by decide⟩

/-- The method, the path and the query of a request in one line, and its body behind it. -/
def echoOf (r : Request) : Bytes :=
  Utf8.encode (r.method.text ++ ' ' :: r.path ++ ' ' :: r.query.toText ++ ['\n']) ++ r.body.raw

/-- Answers with the request. -/
def echo (id : Nat) : Middleware :=
  traced id fun _ c => setResponse (.ofBody .ok octetStream (echoOf c.request)) c

/-- Answers with the address of the client. -/
def remote (id : Nat) : Middleware :=
  traced id fun _ c => setResponse (.ofText .ok ((c.remote.map Address.toText).getD "none".toList)) c

/-- Answers requests for one path and goes on with all others. -/
def route (id : Nat) (path : Text) (r : Response) : Middleware :=
  traced id fun next c => if c.request.path = path then setResponse r c else next.run c

/-- Goes on, then adds a field to the response, or inserts it in place of all of its name. -/
def header (id : Nat) (f : Field) (inPlace : Bool) : Middleware :=
  traced id fun next => next.run.andThen <| .change fun c =>
    { c with response := c.response.map fun r => if inPlace then r.insert f else r.append f }

/-- Goes on, then sets the response. -/
def replace (id : Nat) (r : Response) : Middleware :=
  traced id fun next => next.run.andThen (setResponse r)

/-- Goes on, then takes the response away. -/
def take (id : Nat) : Middleware :=
  traced id fun next => next.run.andThen fun c =>
    ({ c with response := none }, [.mark (.took id c.response)])

/-- Does a step on the cookies. -/
def cookieStep (id : Nat) (step : CookieStep) : Handler := fun c =>
  let (found, cookies) := c.cookies.step step
  ({ c with cookies }, [.mark (.cookie id found)])

/-- Does steps on the cookies, then goes on. -/
def cookies (id : Nat) (steps : List CookieStep) : Middleware :=
  traced id fun next => (steps.map (cookieStep id)).foldr Handler.andThen next.run

end HttpWire.Middleware
