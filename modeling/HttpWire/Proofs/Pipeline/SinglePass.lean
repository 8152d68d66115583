import HttpWire.Pipeline.Probe
import HttpWire.Pipeline.Stock

/-!
# Stages that go on at most once

A stage that runs what follows it at most once either ends the way of a context or lets it go on,
and then has something to do behind that (`Turn`).  `SinglePass` is such a stage with the turns that
contexts take in it.

Single passes are made of a few forms: a stage ends the way of a context, has something to do in
front of what follows it or behind, or takes one of two turns by a look at the context; and any of
them may stand between marks.  The stock stages are of these forms, and so are the others, apart
from `twice`, which is no single pass (`toMiddleware_ne_twice`).
-/

namespace HttpWire

/-- What becomes of a context in a stage. -/
inductive Turn
  /-- It is left in a context, and nothing that follows is run. -/
  | ends (context : Context) (acts : List Act)
  /-- What follows is run with a context, and behind that there is something to be done. -/
  | goesOn (context : Context) (acts : List Act) (behind : Handler)

namespace Turn

/-- The handling, with what follows the stage. -/
def run (next : Handler) : Turn → Context × List Act
  | ends context acts => (context, acts)
  | goesOn context acts behind =>
    let (c, inner) := next context
    let (c', after) := behind c
    (c', acts ++ inner ++ after)

/-- The turn with something done in front of it and something behind. -/
def between (ahead : List Act) (behind : Handler) : Turn → Turn
  | ends context acts =>
    let (c, after) := behind context
    ends c (ahead ++ acts ++ after)
  | goesOn context acts inner => goesOn context (ahead ++ acts) (inner.andThen behind)

theorem run_between (next : Handler) (ahead : List Act) (behind : Handler) (t : Turn) :
    (t.between ahead behind).run next =
      ((behind (t.run next).1).1, ahead ++ (t.run next).2 ++ (behind (t.run next).1).2) := by
  cases t with
  | ends context acts => rfl
  | goesOn context acts inner => simp only [between, run, Handler.andThen, List.append_assoc]

end Turn

/-- A stage that runs what follows it at most once.  It may look whether anything follows. -/
structure SinglePass extends Middleware where
  turn : Bool → Context → Turn
  handle_eq : ∀ next c, handle next c = (turn next.isEmpty c).run next.run

namespace SinglePass

/-! ### Forms -/

/-- Nothing that follows is run. -/
def ending (f : Handler) : SinglePass where
  handle _ := f
  turn _ c := .ends (f c).1 (f c).2
  handle_eq _ _ := rfl

/-- What follows is run, and nothing else is done. -/
def straight : SinglePass where
  handle next := next.run
  turn _ c := .goesOn c [] .skip
  handle_eq next c := by
    simp only [Turn.run, Handler.skip, List.nil_append, List.append_nil]

/-- Something is done behind what follows. -/
def behind (f : Handler) : SinglePass where
  handle next := next.run.andThen f
  turn _ c := .goesOn c [] f
  handle_eq _ _ := rfl

/-- Something is done in front of a stage. -/
def ahead (f : Handler) (m : SinglePass) : SinglePass where
  handle next := f.andThen (m.handle next)
  turn last c := (m.turn last (f c).1).between (f c).2 .skip
  handle_eq next c := by
    simp only [Handler.andThen, m.handle_eq, Turn.run_between, Handler.skip, List.append_nil]

/-- One of two stages, by a look at the context. -/
def choice (p : Context → Prop) [DecidablePred p] (m m' : SinglePass) : SinglePass where
  handle next c := if p c then m.handle next c else m'.handle next c
  turn last c := if p c then m.turn last c else m'.turn last c
  handle_eq next c := by
    split
    · exact m.handle_eq next c
    · exact m'.handle_eq next c

/-- A stage between its marks. -/
def traced (id : Nat) (m : SinglePass) : SinglePass where
  toMiddleware := .traced id m.handle
  turn last c := (m.turn last c).between [.mark (.entered id last)]
    fun c => (c, [.mark (.left id (c.response.map (·.status)))])
  handle_eq next c := by
    rw [Turn.run_between, ← m.handle_eq]
    simp only [Middleware.traced, Middleware.leaveMark, Handler.andThen, Handler.act,
      List.append_assoc]

/-! ### Stages -/

/-- The stage that answers what nothing behind it answered. -/
def notFound : SinglePass where
  toMiddleware := .notFound
  turn _ c := .goesOn c [] fun c =>
    ({ c with response := some (c.response.getD (Middleware.notFoundResponse c.request.path)) }, [])
  handle_eq _ _ := rfl

/-- The stage that stamps responses with a moment. -/
def date (moment : FieldValue) : SinglePass where
  toMiddleware := .date moment
  turn _ c := .goesOn c [] fun c =>
    ({ c with response := c.response.map (Middleware.stamp moment) }, [])
  handle_eq _ _ := rfl

/-- The stage that answers with a response. -/
def respond (id : Nat) (r : Response) : SinglePass where
  toMiddleware := .respond id r
  turn _ c := .ends { c with response := some r } [.mark (.responded id)]
  handle_eq _ _ := rfl

/-- The stage that goes on. -/
def pass (id : Nat) : SinglePass :=
  { traced id straight with toMiddleware := .pass id }

/-- The stage that waits. -/
def delay (id ms : Nat) : SinglePass :=
  { traced id (ahead (.act (.pause ms)) straight) with toMiddleware := .delay id ms }

/-- The stage that cancels the work of the server. -/
def cancel (id : Nat) : SinglePass :=
  { traced id (ahead (.act .cancel) straight) with toMiddleware := .cancel id }

/-- The stage that answers with the request. -/
def echo (id : Nat) : SinglePass :=
  { traced id (ending fun c => Middleware.setResponse
      (.ofBody .ok Middleware.octetStream (Middleware.echoOf c.request)) c) with
    toMiddleware := .echo id }

/-- The stage that answers with the address of the client. -/
def remote (id : Nat) : SinglePass :=
  { traced id (ending fun c => Middleware.setResponse
      (.ofText .ok ((c.remote.map Address.toText).getD "none".toList)) c) with
    toMiddleware := .remote id }

/-- The stage that answers requests for one path. -/
def route (id : Nat) (path : Text) (r : Response) : SinglePass :=
  { traced id (choice (·.request.path = path) (ending (Middleware.setResponse r)) straight) with
    toMiddleware := .route id path r }

/-- The stage that adds a field to the response. -/
def header (id : Nat) (f : Field) (inPlace : Bool) : SinglePass :=
  { traced id (behind (.change fun c => { c with
      response := c.response.map fun r => if inPlace then r.insert f else r.append f })) with
    toMiddleware := .header id f inPlace }

/-- The stage that sets another response. -/
def replace (id : Nat) (r : Response) : SinglePass :=
  { traced id (behind (Middleware.setResponse r)) with toMiddleware := .replace id r }

/-- The stage that takes the response away. -/
def take (id : Nat) : SinglePass :=
  { traced id (behind fun c =>
      ({ c with response := none }, [.mark (.took id c.response)])) with
    toMiddleware := .take id }

/-- Some things are done in a row in front of what follows. -/
theorem handle_foldr_ahead (fs : List Handler) (next : Next) :
    (fs.foldr ahead straight).handle next = fs.foldr Handler.andThen next.run := by
  induction fs with
  | nil => rfl
  | cons f fs ih =>
    rw [List.foldr_cons, List.foldr_cons, ← ih]
    rfl

/-- The stage that does steps on the cookies. -/
def cookies (id : Nat) (steps : List CookieStep) : SinglePass where
  toMiddleware := .cookies id steps
  turn := (traced id ((steps.map (Middleware.cookieStep id)).foldr ahead straight)).turn
  handle_eq next c := by
    rw [← handle_eq]
    simp only [traced, Middleware.cookies, Middleware.traced, handle_foldr_ahead]

/-- **A stage that goes on twice is no single pass.**  Whatever follows is done as often as the
stage goes on, so it shows in what is done. -/
theorem toMiddleware_ne_twice (m : SinglePass) (id : Nat) : m.toMiddleware ≠ .twice id := by
  intro h
  -- What follows does as many acts as we like, and leaves the context alone.
  let next (n : Nat) : Next := { isEmpty := false, run := fun c => (c, List.replicate n .cancel) }
  have hcount (n : Nat) (c : Context) :
      ((m.turn false c).run (next n).run).2.length = 2 * n + 2 := by
    rw [← m.handle_eq (next n), h]
    simp only [Middleware.twice, Middleware.traced, Middleware.leaveMark, Handler.andThen,
      Handler.act, next, List.length_append, List.length_singleton, List.length_replicate]
    omega
  let c : Context := .ofRequest
    { method := ⟨"GET".toList, by decide⟩, path := [], query := {}, headers := {}
      protocol := [], version := ⟨1, 1⟩, body := .empty } none
  have hnone := hcount 0 c
  have hone := hcount 1 c
  cases hturn : m.turn false c with
  | ends c' acts =>
    simp only [hturn, Turn.run] at hnone hone
    omega
  | goesOn c' acts behind =>
    simp only [hturn, Turn.run, next, List.length_append, List.length_replicate] at hnone hone
    omega

end SinglePass

end HttpWire
