import Coalesce.Proofs.Stream.Ending

namespace Coalesce.Stream

def Turn.answer (t : Turn) : Answer :=
  match t.outcome with
  | none => .pending
  | some (.ok ()) => .ok
  | some (.error f) => .failed f

@[simp] theorem Turn.answer_mk (t : Turn) (w : Writing) :
    (⟨t.outcome, w, t.channel, t.log⟩ : Turn).answer = t.answer := rfl

@[simp] theorem answer_ofTurn (s : Stream) (t : Turn) : (s.ofTurn t).answer = t.answer := rfl

@[simp] theorem stream_ofTurn (s : Stream) (t : Turn) :
    (s.ofTurn t).stream = { s with writing := t.writing, channel := t.channel } := rfl

/-- A write call of a run. It is accepted each time it gets past its first drain. The answer is that
of its last poll; a call that was cancelled never got another answer than to wait. -/
structure WriteCall where
  token : Token
  passes : Nat
  answer : Answer
  deriving DecidableEq

def WriteCall.accepted (c : WriteCall) : List Token := List.replicate c.passes c.token

def Item.verdict : Item → List Item
  | token _ | pending => []
  | i => [i]

/-- What a collection tells when it has come to an end. -/
def collectVerdict : Option (Except Failure (List Token)) → List Item
  | none => []
  | some (.ok _) => [.ended]
  | some (.error f) => [.failed f]

def amendLast (f : WriteCall → WriteCall) (calls : List WriteCall) : List WriteCall :=
  calls.dropLast ++ (calls.getLast?.map f).toList

/-- The write calls of a run after one more operation. A call that is polled is the last one. -/
def callsAfter (s : Stream) (calls : List WriteCall) (op : Op) : List WriteCall :=
  let answer := (s.step op).answer
  match s.writing, op with
  | .idle w, .write t | .idle w, .startWrite t => calls ++ [⟨t, w.admits s.channel, answer⟩]
  | .busy w (.write _), .pollWriter =>
    amendLast (fun c => { c with passes := c.passes + w.admits s.channel, answer }) calls
  | .busy _ .settle, .pollWriter => amendLast (fun c => { c with answer }) calls
  | _, _ => calls

/-- The tokens that an operation takes out of the channel. -/
def drawn (s : Stream) (op : Op) : List Token :=
  match op, s.reading with
  | .next, .idle r => (r.poll s.alone s.channel).1.taken
  | .collect, .idle r | .pollReader, .collecting r _ => r.drawn s.alone s.channel
  | _, _ => []

/-- How an operation ends the writing if it succeeds, where it is one that can. A close or an abort
that is cancelled lets the writer go, just as dropping it does. -/
def aim? (s : Stream) (op : Op) : Option Ending :=
  match s.writing, op with
  | .idle _, .close | .busy _ .close, .pollWriter => some .close
  | .idle _, .abort r | .busy _ (.abort r), .pollWriter => some (.abort r)
  | .idle _, .dropWriter | .busy _ .close, .cancelWriter | .busy _ (.abort _), .cancelWriter =>
    some .drop
  | _, _ => none

def ending? (s : Stream) (op : Op) : Option Ending :=
  if (s.step op).answer = .ok then s.aim? op else none

/-- What the reader is told that is neither a token nor to wait: the end of the output, or a
failure. -/
def verdict? (s : Stream) (op : Op) : Option Item :=
  match op, (s.step op).answer with
  | .next, .ended | .collect, .tokens _ | .pollReader, .tokens _ => some .ended
  | .next, .failed f | .collect, .failed f | .pollReader, .failed f => some (.failed f)
  | _, _ => none

/-- Whether an operation lacks what it works on: its half of the stream, or a call to poll. -/
def refuses (s : Stream) (op : Op) : Bool :=
  match op, s.writing, s.reading with
  | .write _, .idle _, _ | .startWrite _, .idle _, _ | .close, .idle _, _ | .abort _, .idle _, _
  | .dropWriter, .idle _, _ | .pollWriter, .busy _ _, _ | .cancelWriter, .busy _ _, _
  | .next, _, .idle _ | .collect, _, .idle _ | .dropReader, _, .idle _
  | .pollReader, _, .collecting _ _ | .cancelReader, _, .collecting _ _ => false
  | _, _, _ => true

/-- A stream together with what its two ends have seen, in order. -/
structure History where
  stream : Stream
  calls : List WriteCall := []
  received : List Token := []
  endings : List Ending := []
  verdicts : List Item := []
  deriving DecidableEq

namespace History

def accepted (h : History) : List Token := h.calls.flatMap WriteCall.accepted

def step (h : History) (op : Op) : History where
  stream := (h.stream.step op).stream
  calls := h.stream.callsAfter h.calls op
  received := h.received ++ h.stream.drawn op
  endings := h.endings ++ (h.stream.ending? op).toList
  verdicts := h.verdicts ++ (h.stream.verdict? op).toList

def run (h : History) (ops : List Op) : History := ops.foldl step h

theorem run_cons (h : History) (op : Op) (ops : List Op) :
    h.run (op :: ops) = (h.step op).run ops := rfl

/-- Some run of a stream that can be made has this history. -/
inductive Reachable : History → Prop where
  | start {n : UInt64} {s : Stream} (h : withCapacity n = .ok s) : Reachable { stream := s }
  | step {h : History} (op : Op) (hr : h.Reachable) : Reachable (h.step op)

theorem Reachable.run {h : History} (hr : h.Reachable) (ops : List Op) : (h.run ops).Reachable := by
  induction ops generalizing h with
  | nil => exact hr
  | cons op ops ih => exact ih (hr.step op)

section Steps

variable {h : History} {w : Writer} {r : Reader} {past : List WriteCall} {taken : List Token}

attribute [local simp] History.step Stream.step withWriter withReader callsAfter drawn ending? aim?
  verdict?

theorem step_of_refuses (op : Op) (hr : h.stream.refuses op = true) : h.step op = h := by
  -- Every operation against every state of the two halves.
  cases op <;> cases hw : h.stream.writing <;> cases hg : h.stream.reading <;>
    simp_all [refuses, Stream.cancelWriter, stay]

def turned (h : History) (turn : Turn) : History :=
  { h with stream := { h.stream with writing := turn.writing, channel := turn.channel } }

theorem step_startWrite (hw : h.stream.writing = .idle w) (t : Token) :
    h.step (.startWrite t) = { h.turned (w.write t h.stream.channel) with
      calls := h.calls ++
        [⟨t, w.admits h.stream.channel, (w.write t h.stream.channel).answer⟩] } := by
  simp [hw, turned]

theorem step_pollWrite {t : Token} (hw : h.stream.writing = .busy w (.write t))
    (hc : h.calls = past ++ [⟨t, 0, .pending⟩]) :
    h.step .pollWriter = { h.turned (w.write t h.stream.channel) with
      calls := past ++
        [⟨t, w.admits h.stream.channel, (w.write t h.stream.channel).answer⟩] } := by
  simp [hw, Writer.poll, hc, amendLast, turned]

theorem step_pollSettle {t : Token} (hw : h.stream.writing = .busy w .settle)
    (hc : h.calls = past ++ [⟨t, 1, .pending⟩]) :
    h.step .pollWriter = { h.turned (w.settle h.stream.channel) with
      calls := past ++ [⟨t, 1, (w.settle h.stream.channel).answer⟩] } := by
  simp [hw, Writer.poll, hc, amendLast, turned]

/-- The history once a turn has been taken that is to end the writing by `e`. -/
def concluded (h : History) (turn : Turn) (e : Ending) : History :=
  { h.turned turn with
    endings := h.endings ++ (if turn.answer = .ok then some e else none).toList }

theorem step_close (hw : h.stream.writing = .idle w) :
    h.step .close = h.concluded (w.close h.stream.channel) .close := by
  simp [hw, turned, concluded]

theorem step_abort (hw : h.stream.writing = .idle w) (r : Reason) :
    h.step (.abort r) = h.concluded (w.abort r h.stream.channel) (.abort r) := by
  simp [hw, turned, concluded]

theorem step_pollClose (hw : h.stream.writing = .busy w .close) :
    h.step .pollWriter = h.concluded (w.close h.stream.channel) .close := by
  simp [hw, Writer.poll, turned, concluded]

theorem step_pollAbort {r : Reason} (hw : h.stream.writing = .busy w (.abort r)) :
    h.step .pollWriter = h.concluded (w.abortOn r h.stream.channel) (.abort r) := by
  simp [hw, Writer.poll, turned, concluded]

def released (h : History) : History :=
  { h with stream := { h.stream with writing := .gone }, endings := h.endings ++ [.drop] }

theorem step_dropWriter (hw : h.stream.writing = .idle w) : h.step .dropWriter = h.released := by
  simp [hw, released]

/-- A write that is cancelled gives its writer back, any other call lets it go. -/
theorem step_cancelWriter {call : Call} (hw : h.stream.writing = .busy w call) :
    h.step .cancelWriter =
      if call.writes then { h with stream := { h.stream with writing := .idle w } }
      else h.released := by
  cases call <;>
    simp [Stream.cancelWriter, Writing.cancel, hw, released, Call.writes]

theorem step_write (hw : h.stream.writing = .idle w) (t : Token) :
    h.step (.write t) = (h.step (.startWrite t)).step .cancelWriter := by
  rw [step_startWrite hw]
  rcases w.write_writing t h.stream.channel with ⟨w', -, hi⟩ | ⟨w', call, hc, hi⟩
  · rw [step_of_refuses .cancelWriter (by simp [refuses, turned, hi])]
    simp [hw, turned, hi, Writing.cancel]
  · rw [step_cancelWriter (by rw [turned, hi]), if_pos hc]
    cases call <;> cases hc <;>
      simp [hw, turned, hi, Writing.cancel]

theorem step_next (hr : h.stream.reading = .idle r) :
    h.step .next =
      { h with
        stream := { h.stream with
          reading := .idle (r.poll h.stream.alone h.stream.channel).2.1
          channel := (r.poll h.stream.alone h.stream.channel).2.2.1 }
        received := h.received ++ (r.poll h.stream.alone h.stream.channel).1.taken
        verdicts := h.verdicts ++ (r.poll h.stream.alone h.stream.channel).1.verdict } := by
  rcases hp : r.poll h.stream.alone h.stream.channel with ⟨i, r', c, es⟩
  cases i <;>
    simp [hr, hp, ofItem, Item.verdict]

def gathered (h : History) (r : Reader) (taken : List Token) : History :=
  { h with
    stream := { h.stream with
      reading := (r.collect h.stream.alone taken h.stream.channel).2.1
      channel := (r.collect h.stream.alone taken h.stream.channel).2.2.1 }
    received := h.received ++ r.drawn h.stream.alone h.stream.channel
    verdicts := h.verdicts ++ collectVerdict (r.collect h.stream.alone taken h.stream.channel).1 }

theorem step_collect (hr : h.stream.reading = .idle r) : h.step .collect = h.gathered r [] := by
  rcases hp : r.collect h.stream.alone [] h.stream.channel with ⟨_ | _ | _, s, c, es⟩ <;>
    simp [hr, hp, collectWith, collectVerdict, gathered]

theorem step_pollReader (hr : h.stream.reading = .collecting r taken) :
    h.step .pollReader = h.gathered r taken := by
  rcases hp : r.collect h.stream.alone taken h.stream.channel with ⟨_ | _ | _, s, c, es⟩ <;>
    simp [hr, hp, collectWith, collectVerdict, gathered]

def deafened (h : History) : History :=
  { h with stream := { h.stream with reading := .gone, channel := h.stream.channel.mute } }

theorem step_dropReader (hr : h.stream.reading = .idle r) : h.step .dropReader = h.deafened := by
  simp [hr, Stream.dropReader, deafened]

theorem step_cancelReader (hr : h.stream.reading = .collecting r taken) :
    h.step .cancelReader = h.deafened := by
  simp [hr, Stream.dropReader, deafened]

end Steps

end History

end Coalesce.Stream
