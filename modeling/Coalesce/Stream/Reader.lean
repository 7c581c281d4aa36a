import Coalesce.Stream.Channel

namespace Coalesce.Stream

/-- The reading half. It has ended once it no longer listens to its channel. -/
structure Reader where
  delivered : Nat := 0
  deriving DecidableEq

inductive Item where
  | token (t : Token)
  | ended
  | failed (f : Failure)
  | pending
  deriving DecidableEq

inductive Reading where
  | idle (r : Reader)
  | collecting (r : Reader) (taken : List Token)
  | gone
  deriving DecidableEq

namespace Reader

/-- A token leaves the channel; all else is the last that is heard of it. `alone` says that the
writer is gone. -/
def poll (r : Reader) (alone : Bool) (c : Channel) : Item × Reader × Channel × List Event :=
  if c.listening then
    match c.frames with
    | .token t :: fs =>
      (.token t, ⟨r.delivered + 1⟩, { c with frames := fs }, [.delivered t.kind t.span])
    | .closed :: fs => (.ended, r, { c with frames := fs }.mute, [])
    | .aborted e :: fs => (.failed (.aborted e), r, { c with frames := fs }.mute, [])
    | [] =>
      if alone then (.failed .writerDropped, r, c.mute, [.vanished r.delivered])
      else (.pending, r, c, [])
  else (.ended, r, c, [])

theorem frames_of_poll {r r' : Reader} {alone : Bool} {c c' : Channel} {t : Token} {es : List Event}
    (h : r.poll alone c = (.token t, r', c', es)) : c.frames = .token t :: c'.frames := by
  unfold poll at h
  split at h
  · split at h
    · simp only [Prod.mk.injEq, Item.token.injEq] at h
      obtain ⟨rfl, -, rfl, -⟩ := h
      assumption
    · simp at h
    · simp at h
    · split at h <;> simp at h
  · simp at h

/-- Takes tokens until a poll yields none. The outcome is missing while the collection goes on. -/
def collect (r : Reader) (alone : Bool) (taken : List Token) (c : Channel) :
    Option (Except Failure (List Token)) × Reading × Channel × List Event :=
  match _h : r.poll alone c with
  | (.token t, r, c', es) =>
    let (out, s, c'', es') := collect r alone (taken ++ [t]) c'
    (out, s, c'', es ++ es')
  | (.ended, _, c, es) => (some (.ok taken), .gone, c, es)
  | (.failed f, _, c, es) => (some (.error f), .gone, c, es)
  | (.pending, r, c, es) => (none, .collecting r taken, c, es)
termination_by c.frames.length
decreasing_by simp [frames_of_poll _h]

end Reader

end Coalesce.Stream
