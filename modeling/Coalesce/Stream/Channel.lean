import Coalesce.Stream.Event

namespace Coalesce.Stream

inductive Frame where
  | token (t : Token)
  | closed
  | aborted (reason : Reason)
  deriving DecidableEq

/-- A queue of frames that does what tokio documents of its bounded channel: frames leave in the
order they came in, a full buffer makes a sender wait, and once nobody listens all are refused. -/
structure Channel where
  capacity : Nat
  frames : List Frame := []
  listening : Bool := true
  deriving DecidableEq

inductive Progress where
  | done
  | stalled
  | refused
  deriving DecidableEq

namespace Channel

def room (c : Channel) : Nat := c.capacity - c.frames.length

def mute (c : Channel) : Channel := { c with listening := false }

def send (c : Channel) (f : Frame) : Progress × Channel :=
  if c.listening then
    if c.frames.length < c.capacity then (.done, { c with frames := c.frames ++ [f] })
    else (.stalled, c)
  else (.refused, c)

theorem send_eq_done_iff (c c' : Channel) (f : Frame) :
    c.send f = (.done, c') ↔
      c.listening = true ∧ c.frames.length < c.capacity ∧ c' = { c with frames := c.frames ++ [f] } := by
  unfold send
  grind

end Channel

end Coalesce.Stream
