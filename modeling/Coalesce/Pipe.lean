import Coalesce.Stream

namespace Coalesce

open Coalesce.Stream

inductive Ending where
  | close
  | abort (reason : Reason)
  | drop
  deriving DecidableEq

def Ending.op : Ending → Op
  | close => .close
  | abort r => .abort r
  | drop => .dropWriter

/-- A producer and a consumer at the two halves of one stream. Each has operations still to be
polled, and an answer, which is final when none are left. -/
structure Pipe where
  stream : Stream
  producer : List Op
  consumer : List Op
  wrote : Answer := .pending
  read : Answer := .pending

namespace Pipe

def start (s : Stream) (ts : List Token) (e : Ending) : Pipe where
  stream := s
  producer := ts.map .startWrite ++ [e.op]
  consumer := [.collect]

/-- One poll of the producer: it goes on until a call suspends or fails. A producer that fails
leaves its writer behind. -/
def produce (s : Stream) : List Op → Stream × List Op × Answer
  | [] => (s, [], .ok)
  | op :: ops =>
    match s.step op with
    | ⟨s, .pending, _⟩ => (s, .pollWriter :: ops, .pending)
    | ⟨s, .failed f, _⟩ => ((s.step .dropWriter).stream, [], .failed f)
    | ⟨s, _, _⟩ => produce s ops

inductive Side where
  | producer
  | consumer
  deriving DecidableEq

def consume (s : Stream) (op : Op) : Stream × List Op × Answer :=
  match s.step op with
  | ⟨s, .pending, _⟩ => (s, [.pollReader], .pending)
  | ⟨s, a, _⟩ => (s, [], a)

def poll (p : Pipe) : Side → Pipe
  | .producer =>
    match p.producer with
    | [] => p
    | ops =>
      let (stream, producer, wrote) := produce p.stream ops
      { p with stream, producer, wrote }
  | .consumer =>
    match p.consumer with
    | [] => p
    | op :: _ =>
      let (stream, consumer, read) := consume p.stream op
      { p with stream, consumer, read }

def isDone (p : Pipe) : Bool := p.producer.isEmpty && p.consumer.isEmpty

def alternate : Nat → Pipe → Pipe
  | 0, p => p
  | n + 1, p => if p.isDone then p else alternate n ((p.poll .producer).poll .consumer)

/-- Every round moves a frame, of which there are at most one more than tokens. -/
def run (s : Stream) (ts : List Token) (e : Ending) : Pipe :=
  alternate (ts.length + 2) (start s ts e)

end Pipe

end Coalesce
