import HttpWire.Response.Reply
import HttpWire.Wire.Client

/-!
# The outbox

Replies are put into the outbox and sent together.  Putting a reply that cannot be written leaves
its octets up to the fault in the outbox.  Sending offers the octets until all have been accepted,
forgets them, and then has the client take delivery; if they are not accepted, all of them stay.
-/

namespace HttpWire

/-- Offers octets until all have been accepted. -/
def Client.writeAll (bytes : Bytes) (c : Timed Client) : Except IoError Unit × Timed Client :=
  match bytes with
  | [] => (.ok (), c)
  | b :: bs =>
    match Client.write (b :: bs) c with
    | (.error e, c') => (.error e, c')
    -- Offering the same octets again might go on for ever.
    | (.ok 0, c') => (.error .writeZero, c')
    | (.ok (n + 1), c') => writeAll (bs.drop n) c'
termination_by bytes.length
decreasing_by
  simp only [List.length_drop, List.length_cons]
  omega

/-- Writing leaves what can be read. -/
theorem Client.available_writeAll (bytes : Bytes) (c : Timed Client) :
    (writeAll bytes c).2.subject.available = c.subject.available := by
  fun_induction writeAll bytes c with
  | case1 => rfl
  | case2 c b bs e c' h => simpa [h] using available_write (b :: bs) c
  | case3 c b bs c' h => simpa [h] using available_write (b :: bs) c
  | case4 c b bs n c' h ih => rw [ih]; simpa [h] using available_write (b :: bs) c

/-- Octets that wait to be sent. -/
structure Outbox where
  waiting : Bytes := []
deriving DecidableEq

namespace Outbox

/-- The outbox with nothing in it. -/
def clear (_ : Outbox) : Outbox :=
  {}

/-- Puts a reply behind what waits to be sent. -/
def put (reply : Reply) (box : Outbox) : Except SendError Unit × Outbox :=
  let (result, octets) := reply.encode
  (result, ⟨box.waiting ++ octets⟩)

/-- Sends what waits to be sent. -/
def send (box : Outbox) (c : Timed Client) : Except SendError Unit × Outbox × Timed Client :=
  if box.waiting.isEmpty then (.ok (), box, c)
  else
    match Client.writeAll box.waiting c with
    | (.error e, c) => (.error (.io e), box, c)
    | (.ok (), c) =>
      -- The client has the octets now, so they are forgotten even if it cannot take delivery.
      match Client.flush c with
      | (.error e, c) => (.error (.io e), {}, c)
      | (.ok (), c) => (.ok (), {}, c)

/-- Sending leaves what can be read. -/
theorem available_send (box : Outbox) (c : Timed Client) :
    (box.send c).2.2.subject.available = c.subject.available := by
  have h₁ := Client.available_writeAll box.waiting c
  unfold send
  split
  · rfl
  · split
    · next h => simpa [h] using h₁
    · next c' h =>
      rw [h] at h₁
      have h₂ := Client.available_flush c'
      split <;> next h' =>
        rw [h'] at h₂
        exact h₂.trans h₁

end Outbox

end HttpWire
