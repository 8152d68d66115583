import HttpWire.Pipeline.Basic

/-!
# Middleware for every server

`notFound` answers what nothing behind it answered, and `date` stamps responses.
-/

namespace HttpWire.Middleware

/-- The answer to a request for which there is nothing. -/
def notFoundResponse (path : Text) : Response :=
  .ofText .notFound ("no resource at ".toList ++ path)

/-- Responds with status 404 if what follows did not respond. -/
def notFound : Middleware where
  handle next := next.run.andThen <| .change fun c =>
    { c with response := some (c.response.getD (notFoundResponse c.request.path)) }

/-- The response with a moment as its date, unless it has a date. -/
def stamp (moment : FieldValue) (r : Response) : Response :=
  if r.headers.contains .date then r else r.insert ⟨.date, moment⟩

/-- Stamps the response of what follows with a moment. -/
def date (moment : FieldValue) : Middleware where
  handle next := next.run.andThen <| .change fun c =>
    { c with response := c.response.map (stamp moment) }

end HttpWire.Middleware
