import Coalesce.Token.Display

namespace Coalesce.Stream

/-- Why a stream was aborted: a failure, and what was said about it afterwards. -/
structure Reason where
  message : String
  contexts : List String := []
  deriving DecidableEq

/-- What was said last. -/
def Reason.display (r : Reason) : String := r.contexts.getLast?.getD r.message

inductive Failure where
  | aborted (reason : Reason)
  | writerDropped
  | readerDropped
  deriving DecidableEq

def Failure.message : Failure → String
  | aborted r => "token stream aborted: " ++ r.display
  | writerDropped => "token writer dropped before close"
  | readerDropped => "token reader dropped"

inductive Level where
  | trace
  | debug
  | warn
  deriving DecidableEq

def Level.name : Level → String
  | trace => "TRACE"
  | debug => "DEBUG"
  | warn => "WARN"

/-- What the log of a stream tells. -/
inductive Event where
  | created (capacity : Nat)
  | delivered (kind : Kind) (span : Span)
  | flushing (span : Span)
  | closed (written emitted : Nat)
  | aborted (reason : Reason) (discarded : Bool)
  | abandoned (written : Nat) (discarded : Bool) (undelivered : Nat)
  | vanished (delivered : Nat)
  deriving DecidableEq

inductive Value where
  | number (n : Nat)
  | flag (b : Bool)
  | text (s : String)
  deriving DecidableEq

namespace Event

def level : Event → Level
  | delivered .. => .trace
  | created .. | flushing .. | closed .. => .debug
  | aborted .. | abandoned .. | vanished .. => .warn

def message : Event → String
  | created .. => "token compressor stream created"
  | delivered .. => "token delivered"
  | flushing .. => "flushing pending literal on close"
  | closed .. => "token writer closed"
  | aborted .. => "token writer aborted"
  | abandoned .. => "token writer dropped without close"
  | vanished .. => "token writer went away without closing"

def fields : Event → List (String × Value)
  | created n => [("capacity", .number n)]
  | delivered k s => [("token_type", .text k.display), ("range", .text s.display)]
  | flushing s => [("range", .text s.display)]
  | closed w e => [("written", .number w), ("emitted", .number e)]
  | aborted r d => [("error", .text r.display), ("discarded", .flag d)]
  | abandoned w d u => [("written", .number w), ("discarded", .flag d), ("undelivered", .number u)]
  | vanished d => [("delivered", .number d)]

end Event

end Coalesce.Stream
