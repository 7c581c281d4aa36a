import Coalesce.Compress
import Coalesce.Stream.Channel

namespace Coalesce.Stream

/-- The writing half. The outbox holds tokens that are final and not yet in the channel. -/
structure Writer where
  merger : Merger := {}
  outbox : Emitted := {}
  written : Nat := 0
  emitted : Nat := 0
  deriving DecidableEq

/-- What a suspended call has still to do. A token to `write` is not accepted yet, one to `settle`
is. -/
inductive Call where
  | write (t : Token)
  | settle
  | close
  | abort (reason : Reason)
  deriving DecidableEq

inductive Writing where
  | idle (w : Writer)
  | busy (w : Writer) (call : Call)
  | gone
  deriving DecidableEq

structure Turn where
  outcome : Option (Except Failure Unit)
  writing : Writing
  channel : Channel
  log : List Event := []

namespace Turn

def suspended (w : Writer) (call : Call) (c : Channel) : Turn := ⟨none, .busy w call, c, []⟩

def refused (left : Writing) (c : Channel) : Turn := ⟨some (.error .readerDropped), left, c, []⟩

def succeeded (left : Writing) (c : Channel) : Turn := ⟨some (.ok ()), left, c, []⟩

def after (t : Turn) (es : List Event) : Turn := { t with log := es ++ t.log }

end Turn

namespace Writer

/-- Moves the outbox into the channel. A token leaves the outbox only for a place in the channel. -/
def drain (w : Writer) (c : Channel) : Progress × Writer × Channel :=
  match _h : w.outbox.next? with
  | none => (.done, w, c)
  | some (t, rest) =>
    match c.send (.token t) with
    | (.done, c) => drain { w with outbox := rest, emitted := w.emitted + 1 } c
    | (p, c) => (p, w, c)
termination_by w.outbox.length
decreasing_by
  have := Emitted.length_of_next? _h
  omega

/-- Goes on with `next` when the outbox is empty. Where the reader is gone, `left` is what remains. -/
def drained (w : Writer) (c : Channel) (call : Call) (left : Writer → Writing)
    (next : Writer → Channel → Turn) : Turn :=
  match w.drain c with
  | (.done, w, c) => next w c
  | (.stalled, w, c) => .suspended w call c
  | (.refused, w, c) => .refused (left w) c

def accept (w : Writer) (t : Token) : Writer :=
  { w with merger := (w.merger.push t).2, outbox := (w.merger.push t).1, written := w.written + 1 }

def settle (w : Writer) (c : Channel) : Turn :=
  w.drained c .settle .idle fun w c => .succeeded (.idle w) c

def write (w : Writer) (t : Token) (c : Channel) : Turn :=
  w.drained c (.write t) .idle fun w c => (w.accept t).settle c

def flush (w : Writer) : Writer × List Event :=
  match w.merger.finish with
  | (none, m) => ({ w with merger := m }, [])
  | (some t, m) => ({ w with merger := m, outbox := .singleton t }, [.flushing t.span])

def mark (w : Writer) (f : Frame) (call : Call) (log : List Event) (c : Channel) : Turn :=
  match c.send f with
  | (.done, c) => (Turn.succeeded .gone c).after log
  | (.stalled, c) => .suspended w call c
  | (.refused, c) => .refused .gone c

/-- A close that is polled again finds done what was done before. -/
def close (w : Writer) (c : Channel) : Turn :=
  w.drained c .close (fun _ => .gone) fun w c =>
    (w.flush.1.drained c .close (fun _ => .gone) fun w c =>
      w.mark .closed .close [.closed w.written w.emitted] c).after w.flush.2

def abortOn (w : Writer) (r : Reason) (c : Channel) : Turn :=
  w.drained c (.abort r) (fun _ => .gone) fun w c => w.mark (.aborted r) (.abort r) [] c

/-- The open run is discarded at once, before anything can suspend. -/
def abort (w : Writer) (r : Reason) (c : Channel) : Turn :=
  ({ w with merger := w.merger.discard.2 }.abortOn r c).after [.aborted r w.merger.discard.1]

def dropped (w : Writer) (c : Channel) : List Event :=
  if c.listening then [.abandoned w.written w.merger.discard.1 w.outbox.length] else []

def poll (w : Writer) (c : Channel) : Call → Turn
  | .write t => w.write t c
  | .settle => w.settle c
  | .close => w.close c
  | .abort r => w.abortOn r c

end Writer

namespace Writing

/-- A suspended write gives its writer back, with what it accepted. Any other call takes the writer
with it. -/
def cancel (c : Channel) : Writing → Writing × List Event
  | busy w (.write _) | busy w .settle => (idle w, [])
  | busy w .close | busy w (.abort _) => (gone, w.dropped c)
  | s => (s, [])

end Writing

end Coalesce.Stream
