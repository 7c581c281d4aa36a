import Coalesce.Proofs.Pipe.Script

namespace Coalesce

open Coalesce.Stream

def Ending.delivered (ts : List Token) : Ending → List Token
  | close => compress ts
  | _ => final ts

/-- What a consumer that collects is answered when `ts` are written and the writing ends. -/
def Ending.answer (ts : List Token) : Ending → Answer
  | close => .tokens (compress ts)
  | abort r => .failed (.aborted r)
  | drop => .failed .writerDropped

theorem Ending.length_delivered_le (ts : List Token) (e : Ending) :
    (e.delivered ts).length ≤ ts.length := by
  have h : (final ts).length + (Merger.after ts).held.length ≤
      ({} : Merger).held.length + ts.length := Merger.length_feed_le {} ts
  rw [Merger.held_empty, List.length_nil, Nat.zero_add] at h
  cases e with
  | close => rwa [delivered, compress_eq_final, List.length_append]
  | abort r => exact Nat.le_trans (Nat.le_add_right _ _) h
  | drop => exact Nat.le_trans (Nat.le_add_right _ _) h

theorem Stream.Writer.due_empty (ts : List Token) (e : Ending) :
    ({} : Writer).due ts e = e.delivered ts := by
  cases e with
  | close => exact (compress_eq_final ts).symm
  | abort r => exact List.append_nil _
  | drop => exact List.append_nil _

namespace Pipe

/-- The operations left to a producer whose writing stands at `writing`, with `ts` not begun yet. -/
def agenda (ts : List Token) (e : Ending) : Writing → List Op
  | .idle _ => ts.map .startWrite ++ [e.op]
  | .busy _ call => .pollWriter :: if call.writes then ts.map .startWrite ++ [e.op] else []
  | .gone => []

/-- What a poll of the producer comes to, with `D` still to be sent: all of it goes out, or as much
as there is room for. -/
inductive Produced (e : Ending) (D : List Frame) (s : Stream) (out : Stream × List Op × Answer) :
    Prop where
  | finished (hr : D.length ≤ s.channel.room)
      (ho : out = ({ s with writing := .gone, channel := s.channel.extend D }, [], .ok))
  | suspended (ts : List Token) (writing : Writing) (hr : s.channel.room < D.length)
      (hf : writing.Fits ts e) (hD : writing.script ts e = D.drop s.channel.room)
      (ho : out = ({ s with writing, channel := s.channel.extend (D.take s.channel.room) },
        agenda ts e writing, .pending))

theorem Produced.behind {e : Ending} {D fs : List Frame} {s s' : Stream} {writing : Writing}
    {out : Stream × List Op × Answer} (h : Produced e D s' out)
    (hs : s' = { s with writing, channel := s.channel.extend fs })
    (hr : fs.length ≤ s.channel.room) : Produced e (fs ++ D) s out := by
  subst hs
  cases h with
  | finished hr' ho =>
    refine .finished ?_ ?_
    · rw [Channel.room_extend] at hr'
      rw [List.length_append]
      omega
    · rw [ho, Channel.extend_extend]
  | suspended ts writing hr' hf hD ho =>
    rw [Channel.room_extend] at hr' hD ho
    refine .suspended ts writing ?_ hf ?_ ?_
    · rw [List.length_append]
      omega
    · rw [hD, List.drop_append, List.drop_of_length_le hr, List.nil_append]
    · rw [ho, Channel.extend_extend, List.take_append, List.take_of_length_le hr]

section Produce

variable {s : Stream} {w : Writer} {ts : List Token} {e : Ending} {D : List Frame}

/-- A poll of the producer goes on for as long as its calls succeed. -/
theorem produced_of_sends {turn : Turn} {op : Op} {writes : Bool}
    (hs : s.step op = s.ofTurn turn) (ht : turn.Sends writes ts e D s.channel)
    (hi : writes = true → ∀ {s' : Stream} {w : Writer},
      s'.channel.listening = s.channel.listening → s'.writing = .idle w → w.outbox = {} →
        Produced e (w.script ts e) s' (produce s' (ts.map .startWrite ++ [e.op]))) :
    Produced e D s (produce s (op :: if writes then ts.map .startWrite ++ [e.op] else [])) := by
  rw [produce, hs, ofTurn]
  cases ht with
  | onward w fs hb ho hw hc hf hr hD =>
    -- The rest of the poll starts from an idle writer, with less room.
    rw [hb, if_pos rfl, hD, ho, hw, hc]
    have hp : Produced e (w.script ts e)
        { s with writing := .idle w, channel := s.channel.extend fs } (produce _ _) :=
      hi hb rfl rfl hf
    exact hp.behind rfl hr
  | last hb ho hw hc hr =>
    rw [hb, ho, hw, hc]
    exact .finished hr rfl
  | stalled w call hb ho hw hc hf hr hD =>
    rw [ho, hc]
    refine .suspended ts turn.writing hr hf hD ?_
    rw [hw, agenda, hb]

theorem produced_idle (hl : s.channel.listening = true) (hw : s.writing = .idle w)
    (ho : w.outbox = {}) :
    Produced e (w.script ts e) s (produce s (ts.map .startWrite ++ [e.op])) := by
  -- A write that succeeds leaves an idle writer with an empty outbox, as it found one.
  induction ts generalizing s w with
  | nil =>
    cases e with
    | close =>
      have hs : s.step .close = s.ofTurn (w.close s.channel) := by rw [step, withWriter, hw]
      exact produced_of_sends hs (Writer.sends_close hl) nofun
    | abort r =>
      have hs : s.step (.abort r) = s.ofTurn (w.abort r s.channel) := by rw [step, withWriter, hw]
      exact produced_of_sends hs (Writer.sends_abort hl r) nofun
    | drop =>
      have hD : w.script [] .drop = [] := by
        simp [Writer.script, Writer.due, ho, Merger.feed, Ending.kept, Ending.marks]
      refine .finished (by rw [hD]; exact Nat.zero_le _) ?_
      simp [produce, Ending.op, step, withWriter, hw, hD]
  | cons t ts ih =>
    have hs : s.step (.startWrite t) = s.ofTurn (w.write t s.channel) := by
      rw [step, withWriter, hw]
    apply produced_of_sends hs (Writer.sends_write hl t)
    intro _ s' w' hl' hw' ho'
    exact ih (hl'.trans hl) hw' ho'

theorem produced_agenda (hl : s.channel.listening = true) (hf : s.writing.Fits ts e) :
    Produced e (s.writing.script ts e) s (produce s (agenda ts e s.writing)) := by
  cases hw : s.writing with
  | idle w =>
    rw [hw] at hf
    exact produced_idle hl hw hf
  | busy w call =>
    rw [hw] at hf
    have hs : s.step .pollWriter = s.ofTurn (w.poll s.channel call) := by rw [step, hw]
    apply produced_of_sends hs (Writer.sends_poll hl hf)
    intro _ s' w' hl' hw' ho'
    exact produced_idle (hl'.trans hl) hw' ho'
  | gone =>
    rw [hw] at hf
    exact hf.elim

end Produce

def demand : Reading → List Op
  | .idle _ => [.collect]
  | .collecting _ _ => [.pollReader]
  | .gone => []

def taken : Reading → List Token
  | .collecting _ ts => ts
  | _ => []

section Consume

variable {p : Pipe} {ts : List Token} {e : Ending}

theorem poll_consumer (hr : p.stream.reading ≠ .gone) (hc : p.consumer = demand p.stream.reading) :
    ∃ (r : Reader) (op : Op),
      p.stream.step op = p.stream.collectWith r (taken p.stream.reading) ∧
      p.poll .consumer = { p with
        stream := (consume p.stream op).1
        consumer := (consume p.stream op).2.1
        read := (consume p.stream op).2.2 } := by
  cases hg : p.stream.reading with
  | idle r =>
    refine ⟨r, .collect, ?_, ?_⟩
    · rw [step, Stream.withReader, hg]
      rfl
    · rw [poll, hc, hg]
      rfl
  | collecting r us =>
    refine ⟨r, .pollReader, ?_, ?_⟩
    · rw [step, hg, taken]
    · rw [poll, hc, hg]
      rfl
  | gone => exact absurd hg hr

theorem poll_consumer_waits {Q : List Token} (hr : p.stream.reading ≠ .gone)
    (hc : p.consumer = demand p.stream.reading) (hw : p.stream.writing ≠ .gone)
    (hl : p.stream.channel.listening = true) (hq : p.stream.channel.frames = Q.map .token) :
    ∃ r, p.poll .consumer = { p with
      stream := { p.stream with
        reading := .collecting r (taken p.stream.reading ++ Q)
        channel := { p.stream.channel with frames := [] } }
      consumer := [.pollReader]
      read := .pending } := by
  obtain ⟨r, op, hs, hp⟩ := poll_consumer hr hc
  have ha : p.stream.alone = false := decide_eq_false hw
  obtain ⟨es, hes⟩ := r.collect_of_tokens hl hq (taken p.stream.reading)
  rw [collectWith, ha, hes] at hs
  rw [consume, hs] at hp
  exact ⟨_, hp⟩

theorem poll_consumer_ends {Q : List Token} (hr : p.stream.reading ≠ .gone)
    (hc : p.consumer = demand p.stream.reading) (hw : p.stream.writing = .gone)
    (hl : p.stream.channel.listening = true)
    (hq : p.stream.channel.frames = Q.map .token ++ e.marks)
    (hs : taken p.stream.reading ++ Q = e.delivered ts) :
    p.poll .consumer = { p with
      stream := { p.stream with
        reading := .gone
        channel := { p.stream.channel with frames := [], listening := false } }
      consumer := []
      read := e.answer ts } := by
  obtain ⟨r, op, hstep, hp⟩ := poll_consumer hr hc
  have ha : p.stream.alone = true := p.stream.alone_iff.2 hw
  obtain ⟨-, es, hes⟩ := r.collect_of_marks hl hq (taken p.stream.reading)
  rw [collectWith, ha, hes, hs] at hstep
  rw [hp, consume, hstep]
  cases e <;> rfl

end Consume

/-- Where a pipe stands that writes `ts` and ends by `e`. -/
inductive Flow (ts : List Token) (e : Ending) (p : Pipe) : Prop where
  /-- The producer has `D` still to send and the consumer waits. -/
  | flowing (us Q D : List Token) (hn : 0 < p.stream.channel.capacity)
      (hf : p.stream.writing.Fits us e) (hp : p.producer = agenda us e p.stream.writing)
      (hD : p.stream.writing.script us e = D.map .token ++ e.marks) (hw : p.wrote = .pending)
      (hq : p.stream.channel.frames = Q.map .token) (hl : p.stream.channel.listening = true)
      (hr : p.stream.reading ≠ .gone) (hc : p.consumer = demand p.stream.reading)
      (hg : p.read = .pending) (hs : taken p.stream.reading ++ Q ++ D = e.delivered ts)
  /-- The producer has finished, and all is in the channel or taken. -/
  | sent (Q : List Token) (hf : p.stream.writing = .gone) (hp : p.producer = [])
      (hw : p.wrote = .ok) (hq : p.stream.channel.frames = Q.map .token ++ e.marks)
      (hl : p.stream.channel.listening = true) (hr : p.stream.reading ≠ .gone)
      (hc : p.consumer = demand p.stream.reading) (hg : p.read = .pending)
      (hs : taken p.stream.reading ++ Q = e.delivered ts)
  | done (hf : p.stream.writing = .gone) (hp : p.producer = []) (hw : p.wrote = .ok)
      (hq : p.stream.channel.frames = []) (hc : p.consumer = []) (hg : p.read = e.answer ts)

theorem flow_start {n : UInt64} {s : Stream} (h : withCapacity n = .ok s) (ts : List Token)
    (e : Ending) : Flow ts e (start s ts e) := by
  have hn : 0 < max n.toNat 1 := Nat.lt_of_lt_of_le Nat.one_pos (Nat.le_max_right _ _)
  rw [eq_of_withCapacity h]
  refine .flowing ts [] (e.delivered ts) hn rfl rfl ?_ rfl rfl rfl nofun rfl rfl rfl
  rw [← Writer.due_empty]
  rfl

def unbegun? : Op → Option Token
  | .startWrite t => some t
  | _ => none

def unsent (e : Ending) (p : Pipe) : Nat :=
  (p.stream.writing.script (p.producer.filterMap unbegun?) e).length

def buffered (p : Pipe) : Nat := p.stream.channel.frames.length

theorem filterMap_agenda {ts : List Token} {e : Ending} {writing : Writing}
    (hf : writing.Fits ts e) : (agenda ts e writing).filterMap unbegun? = ts := by
  have hts : (ts.map Op.startWrite ++ [e.op]).filterMap unbegun? = ts := by
    have he : unbegun? e.op = none := by cases e <;> rfl
    have hc : unbegun? ∘ Op.startWrite = some := rfl
    rw [List.filterMap_append, List.filterMap_map, hc, List.filterMap_some]
    simp [he]
  rcases writing with w | ⟨w, t | _ | _ | r⟩ | _
  · exact hts
  · exact hts
  · exact hts
  · exact hf.1.symm
  · exact hf.1.symm
  · exact hf.elim

theorem agenda_ne_nil {ts : List Token} {e : Ending} {writing : Writing}
    (hf : writing.Fits ts e) : agenda ts e writing ≠ [] := by
  cases writing with
  | idle w => exact List.append_ne_nil_of_right_ne_nil _ (List.cons_ne_nil _ _)
  | busy w call => exact List.cons_ne_nil _ _
  | gone => exact hf.elim

/-- What a poll of the producer does: it sends all that it still has to send and has finished, or
fills the channel. -/
structure Pushed (e : Ending) (p q : Pipe) : Prop where
  consumer : q.consumer = p.consumer
  capacity : q.stream.channel.capacity = p.stream.channel.capacity
  sent : (p.unsent e ≤ p.stream.channel.room ∧ q.producer = [] ∧ q.unsent e = 0 ∧
      q.buffered = p.buffered + p.unsent e) ∨
    (p.stream.channel.room < p.unsent e ∧ q.producer ≠ [] ∧
      q.unsent e = p.unsent e - p.stream.channel.room ∧
      q.buffered = p.buffered + p.stream.channel.room)

/-- What a poll of the consumer does: it empties the channel, and has finished if the producer
has. -/
structure Pulled (e : Ending) (p q : Pipe) : Prop where
  producer : q.producer = p.producer
  unsent : q.unsent e = p.unsent e
  buffered : q.buffered = 0
  consumer : q.consumer = [] ↔ p.producer = []

theorem poll_of_producer_nil {p : Pipe} (h : p.producer = []) : p.poll .producer = p := by
  rw [poll, h]

theorem poll_of_producer_ne_nil {p : Pipe} (h : p.producer ≠ []) :
    p.poll .producer = { p with
      stream := (produce p.stream p.producer).1
      producer := (produce p.stream p.producer).2.1
      wrote := (produce p.stream p.producer).2.2 } := by
  rw [poll]
  split
  · next hnil => exact absurd hnil h
  · rfl

theorem poll_of_consumer_nil {p : Pipe} (h : p.consumer = []) : p.poll .consumer = p := by
  rw [poll, h]

namespace Flow

variable {p : Pipe} {ts : List Token} {e : Ending}

theorem push (h : Flow ts e p) (hp : p.producer ≠ []) :
    Flow ts e (p.poll .producer) ∧ Pushed e p (p.poll .producer) := by
  cases h with
  | flowing us Q D hn hf hp' hD hw hq hl hr hc hg hs =>
    have hu : p.unsent e = D.length + e.marks.length := by
      rw [unsent, hp', filterMap_agenda hf, hD, List.length_append, List.length_map]
    rw [poll_of_producer_ne_nil hp, hp']
    have hout := produced_agenda hl hf
    rw [hD] at hout
    cases hout with
    | finished hroom ho =>
      rw [ho]
      refine ⟨.sent (Q ++ D) rfl rfl rfl ?_ hl hr hc hg ?_, rfl, rfl, .inl ⟨?_, rfl, rfl, ?_⟩⟩
      · rw [Channel.frames_extend, hq, List.map_append, List.append_assoc]
      · rw [← hs, List.append_assoc]
      · rwa [List.length_append, List.length_map, ← hu] at hroom
      · rw [buffered, Channel.frames_extend, List.length_append, List.length_append,
          List.length_map, ← hu]
        rfl
    | suspended vs writing hroom hf' hD' ho =>
      -- The mark is the last of the frames, so those that have gone out are all tokens.
      obtain ⟨hle, htake, hdrop⟩ := split_script hroom
      rw [hdrop] at hD'
      rw [List.length_append, List.length_map, ← hu] at hroom
      rw [ho, htake]
      refine ⟨.flowing vs (Q ++ D.take p.stream.channel.room) (D.drop p.stream.channel.room) hn hf'
        rfl hD' rfl ?_ hl hr hc hg ?_, rfl, rfl, .inr ⟨hroom, agenda_ne_nil hf', ?_, ?_⟩⟩
      · rw [Channel.frames_extend, hq, List.map_append]
      · rw [← hs, ← List.append_assoc, List.append_assoc, List.take_append_drop]
      · rw [hu, unsent, filterMap_agenda hf', hD', List.length_append, List.length_map,
          List.length_drop]
        omega
      · rw [buffered, Channel.frames_extend, List.length_append, List.length_map,
          List.length_take_of_le hle]
        rfl
  | sent Q hf hp' => exact absurd hp' hp
  | done hf hp' => exact absurd hp' hp

theorem pull (h : Flow ts e p) (hc : p.consumer ≠ []) :
    Flow ts e (p.poll .consumer) ∧ Pulled e p (p.poll .consumer) := by
  cases h with
  | flowing us Q D hn hf hp hD hw hq hl hr hc' hg hs =>
    have hgone : p.stream.writing ≠ .gone := by
      intro hgone
      rw [hgone] at hf
      exact hf
    obtain ⟨r, hpoll⟩ := poll_consumer_waits hr hc' hgone hl hq
    rw [hpoll]
    refine ⟨.flowing us [] D hn hf hp hD hw rfl hl nofun rfl rfl ?_, rfl, rfl, rfl, ?_⟩
    · rw [← hs, List.append_nil]
      rfl
    · rw [hp]
      exact iff_of_false (List.cons_ne_nil _ _) (agenda_ne_nil hf)
  | sent Q hf hp hw hq hl hr hc' hg hs =>
    rw [poll_consumer_ends hr hc' hf hl hq hs]
    exact ⟨.done hf hp hw rfl rfl rfl, rfl, rfl, rfl, iff_of_true rfl hp⟩
  | done hf hp hw hq hc' hg => exact absurd hc' hc

theorem poll (h : Flow ts e p) (x : Side) : Flow ts e (p.poll x) := by
  cases x with
  | producer =>
    by_cases hp : p.producer = []
    · rwa [poll_of_producer_nil hp]
    · exact (h.push hp).1
  | consumer =>
    by_cases hc : p.consumer = []
    · rwa [poll_of_consumer_nil hc]
    · exact (h.pull hc).1

/-- A side waits for as long as it has anything left to do. -/
theorem wrote_eq_pending_iff (h : Flow ts e p) : p.wrote = .pending ↔ p.producer ≠ [] := by
  cases h with
  | flowing us Q D hn hf hp hD hw =>
    rw [hp]
    exact iff_of_true hw (agenda_ne_nil hf)
  | sent Q hf hp hw => simp [hp, hw]
  | done hf hp hw => simp [hp, hw]

theorem read_eq_pending_iff (h : Flow ts e p) : p.read = .pending ↔ p.consumer ≠ [] := by
  have hd : p.stream.reading ≠ .gone → demand p.stream.reading ≠ [] := by
    intro hr
    cases hg : p.stream.reading with
    | idle r => exact List.cons_ne_nil _ _
    | collecting r us => exact List.cons_ne_nil _ _
    | gone => exact absurd hg hr
  cases h with
  | flowing us Q D hn hf hp hD hw hq hl hr hc hg =>
    rw [hc]
    exact iff_of_true hg (hd hr)
  | sent Q hf hp hw hq hl hr hc hg =>
    rw [hc]
    exact iff_of_true hg (hd hr)
  | done hf hp hw hq hc hg =>
    rw [hc, hg]
    cases e <;> simp [Ending.answer]

theorem answers (h : Flow ts e p) (hd : p.isDone = true) :
    p.wrote = .ok ∧ p.read = e.answer ts := by
  rw [isDone, Bool.and_eq_true, List.isEmpty_iff, List.isEmpty_iff] at hd
  have hr := h.read_eq_pending_iff
  cases h with
  | flowing us Q D hn hf hp => exact absurd (hp ▸ hd.1) (agenda_ne_nil hf)
  | sent Q hf hp hw hq hl _ hc hg => exact absurd hd.2 (hr.1 hg)
  | done hf hp hw hq hc hg => exact ⟨hw, hg⟩

end Flow

end Pipe

end Coalesce
