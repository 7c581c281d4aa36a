import Coalesce.Config
import Coalesce.Stream.Reader
import Coalesce.Stream.Writer

namespace Coalesce

/-- A channel with a writing and a reading half, between two operations. -/
structure Stream where
  channel : Stream.Channel
  writing : Stream.Writing := .idle {}
  reading : Stream.Reading := .idle {}
  deriving DecidableEq

namespace Stream

/-- The documented limit of tokio's bounded channel: none is made for more frames. -/
def maxCapacity : Nat := 0x1fffffffffffffff

inductive OpenError where
  | config (e : Coalesce.Error)
  | tooLarge
  deriving DecidableEq

def OpenError.message : OpenError → String
  | config e => e.message
  | tooLarge =>
    "a semaphore may not have more than MAX_PERMITS permits (" ++ maxCapacity.repr ++ ")"

/-- Capacity 0 counts as 1. -/
def withCapacity (n : UInt64) : Except OpenError Stream :=
  let capacity := max n.toNat 1
  if capacity ≤ maxCapacity then .ok { channel := { capacity } } else .error .tooLarge

def withConfig (c : Config) : Except OpenError Stream :=
  match c.validate with
  | .ok () => withCapacity c.stream.bufferCapacity
  | .error e => .error (.config e)

def withText (text : String) : Except OpenError Stream :=
  match Config.ofJson text with
  | .ok c => withConfig c
  | .error e => .error (.config e)

def new : Except OpenError Stream := withCapacity ({} : StreamConfig).bufferCapacity

def created (s : Stream) : List Event := [.created s.channel.capacity]

/-- A poll of an operation that suspends leaves a call behind, except that `write` cancels its own
at once. -/
inductive Op where
  | write (t : Token)
  | startWrite (t : Token)
  | close
  | abort (reason : Reason)
  | pollWriter
  | cancelWriter
  | dropWriter
  | next
  | collect
  | pollReader
  | cancelReader
  | dropReader
  deriving DecidableEq

inductive Answer where
  | ok
  | pending
  | failed (f : Failure)
  | token (t : Token)
  | tokens (ts : List Token)
  | ended
  | writerBusy
  | noWriter
  | readerBusy
  | noReader
  | noTask
  deriving DecidableEq

/-- A stream after an operation, what the operation answered, and what was logged. -/
structure Step where
  stream : Stream
  answer : Answer
  log : List Event := []

def alone (s : Stream) : Bool := s.writing = .gone

def stay (s : Stream) (a : Answer) : Step := ⟨s, a, []⟩

def ofTurn (s : Stream) (t : Turn) : Step where
  stream := { s with writing := t.writing, channel := t.channel }
  answer := match t.outcome with
    | none => .pending
    | some (.ok ()) => .ok
    | some (.error f) => .failed f
  log := t.log

/-- An operation on the writer needs one that no call holds. -/
def withWriter (s : Stream) (act : Writer → Step) : Step :=
  match s.writing with
  | .idle w => act w
  | .busy _ _ => s.stay .writerBusy
  | .gone => s.stay .noWriter

/-- An operation on the reader needs one that does not collect. -/
def withReader (s : Stream) (act : Reader → Step) : Step :=
  match s.reading with
  | .idle r => act r
  | .collecting _ _ => s.stay .readerBusy
  | .gone => s.stay .noReader

def cancelWriter (s : Stream) : Step :=
  match s.writing with
  | .busy _ _ =>
    let (writing, log) := s.writing.cancel s.channel
    ⟨{ s with writing }, .ok, log⟩
  | _ => s.stay .noTask

def ofItem (s : Stream) : Item × Reader × Channel × List Event → Step
  | (item, r, channel, log) =>
    { stream := { s with reading := .idle r, channel }
      answer := match item with
        | .token t => .token t
        | .ended => .ended
        | .failed f => .failed f
        | .pending => .pending
      log }

def collectWith (s : Stream) (r : Reader) (taken : List Token) : Step :=
  let (out, reading, channel, log) := r.collect s.alone taken s.channel
  { stream := { s with reading, channel }
    answer := match out with
      | none => .pending
      | some (.ok ts) => .tokens ts
      | some (.error f) => .failed f
    log }

def dropReader (s : Stream) : Step := ⟨{ s with reading := .gone, channel := s.channel.mute }, .ok, []⟩

def step (s : Stream) : Op → Step
  | .write t => s.withWriter fun w =>
    let turn := w.write t s.channel
    s.ofTurn { turn with writing := (turn.writing.cancel turn.channel).1 }
  | .startWrite t => s.withWriter fun w => s.ofTurn (w.write t s.channel)
  | .close => s.withWriter fun w => s.ofTurn (w.close s.channel)
  | .abort r => s.withWriter fun w => s.ofTurn (w.abort r s.channel)
  | .pollWriter =>
    match s.writing with
    | .busy w call => s.ofTurn (w.poll s.channel call)
    | _ => s.stay .noTask
  | .cancelWriter => s.cancelWriter
  | .dropWriter => s.withWriter fun w => ⟨{ s with writing := .gone }, .ok, w.dropped s.channel⟩
  | .next => s.withReader fun r => s.ofItem (r.poll s.alone s.channel)
  | .collect => s.withReader fun r => s.collectWith r []
  | .pollReader =>
    match s.reading with
    | .collecting r taken => s.collectWith r taken
    | _ => s.stay .noTask
  | .cancelReader =>
    match s.reading with
    | .collecting _ _ => s.dropReader
    | _ => s.stay .noTask
  | .dropReader => s.withReader fun _ => s.dropReader

def writer? (s : Stream) : Option Writer :=
  match s.writing with
  | .idle w => some w
  | _ => none

def reader? (s : Stream) : Option Reader :=
  match s.reading with
  | .idle r => some r
  | _ => none

def hasPending (s : Stream) : Option Bool := s.writer?.map (·.merger.hasPending)

def written (s : Stream) : Option Nat := s.writer?.map (·.written)

def delivered (s : Stream) : Option Nat := s.reader?.map (·.delivered)

def isTerminated (s : Stream) : Option Bool := s.reader?.map fun _ => !s.channel.listening

def run (s : Stream) : List Op → List Step
  | [] => []
  | op :: ops => s.step op :: (s.step op).stream.run ops

end Stream

end Coalesce
