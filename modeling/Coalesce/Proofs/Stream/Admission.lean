import Coalesce.Proofs.Pipe.Script
import Coalesce.Proofs.Stream.Backpressure
import Coalesce.Proofs.Stream.Refusal

namespace Coalesce.Stream

/-- The answer `a` and the writer and channel left by a write that had the tokens `ts` to send
through `c`. As many went as there was room for, and the write waits if there are others, which are
in the outbox. The merger is now `m`, and `n` tokens have been accepted. -/
structure Wrote (ts : List Token) (m : Merger) (n : Nat) (c : Channel) (a : Answer)
    (writing : Writing) (c' : Channel) : Prop where
  answer : a = if ts.length ≤ c.room then .ok else .pending
  channel : c' = c.extend ((ts.take c.room).map .token)
  writer : ∃ w, writing.writer? = some w ∧
    w.merger = m ∧ w.written = n ∧ w.outbox.toList = ts.drop c.room

/-- The answer `a` and the channel left by a close or an abort that had the frames `fs` to send
through `c`. It waits if not all of them went, and there is no room left then. -/
structure Marked (fs : List Frame) (c : Channel) (a : Answer) (c' : Channel) : Prop where
  answer : a = if fs.length ≤ c.room then .ok else .pending
  channel : c' = c.extend (fs.take c.room)
  full : a = .pending → c'.frames.length = c'.capacity

theorem Wrote.behind {us ts : List Token} {m : Merger} {n : Nat} {c c' : Channel} {a : Answer}
    {writing : Writing} (h : Wrote ts m n (c.extend (us.map .token)) a writing c')
    (hr : us.length ≤ c.room) : Wrote (us ++ ts) m n c a writing c' := by
  obtain ⟨ha, hc, w, hw, hm, hn, ho⟩ := h
  rw [Channel.room_extend, List.length_map] at ha hc ho
  refine ⟨?_, ?_, w, hw, hm, hn, ?_⟩
  · simpa only [Nat.le_sub_iff_add_le' hr, ← List.length_append] using ha
  · rw [hc, Channel.extend_extend, List.take_append, List.take_of_length_le hr, List.map_append]
  · rw [ho, List.drop_append, List.drop_of_length_le hr, List.nil_append]

namespace Writer

variable {w : Writer} {c : Channel}

theorem wrote_unload {a : Answer} {writing : Writing} {c' : Channel}
    (ha : a = if w.outbox.length ≤ c.room then .ok else .pending)
    (hw : writing.writer? = some (w.unload c.room))
    (hc : c' = c.extend ((w.outbox.toList.take c.room).map .token)) :
    Wrote w.outbox.toList w.merger w.written c a writing c' :=
  ⟨by rwa [Emitted.length_toList], hc, w.unload c.room, hw, rfl, rfl, w.toList_outbox_unload c.room⟩

theorem wrote_settle (hl : c.listening = true) :
    Wrote w.outbox.toList w.merger w.written c (w.settle c).answer (w.settle c).writing
      (w.settle c).channel := by
  rw [settle_of_listening w hl]
  by_cases ho : w.outbox.length ≤ c.room
  · have ht : w.outbox.toList.take c.room = w.outbox.toList :=
      List.take_of_length_le (by rwa [Emitted.length_toList])
    rw [if_pos ho]
    exact wrote_unload (if_pos ho).symm rfl (by rw [ht]; rfl)
  · rw [if_neg ho]
    exact wrote_unload (if_neg ho).symm rfl rfl

theorem wrote_of_lt (hl : c.listening = true) (t : Token) (ho : c.room < w.outbox.length) :
    Wrote w.outbox.toList w.merger w.written c (w.write t c).answer (w.write t c).writing
      (w.write t c).channel := by
  have hn : ¬ w.outbox.length ≤ c.room := Nat.not_le_of_lt ho
  rw [write_of_listening w t hl, if_neg hn]
  exact wrote_unload (if_neg hn).symm rfl rfl

theorem wrote_of_le (hl : c.listening = true) (t : Token) (ho : w.outbox.length ≤ c.room) :
    Wrote (w.outbox.toList ++ (w.merger.push t).1.toList) (w.merger.push t).2 (w.written + 1) c
      (w.write t c).answer (w.write t c).writing (w.write t c).channel := by
  rw [write_of_listening w t hl, if_pos ho]
  apply Wrote.behind
  · exact wrote_settle (w := (w.unload c.room).accept t) hl
  · rwa [Emitted.length_toList]

theorem script_close (w : Writer) :
    w.script [] .close = (w.outbox.toList ++ w.merger.held).map .token ++ [.closed] := by
  simp [script, due, Merger.feed, Ending.kept, Ending.marks]

theorem script_abort (w : Writer) (r : Reason) :
    w.script [] (.abort r) = w.outbox.toList.map .token ++ [.aborted r] := by
  simp [script, due, Merger.feed, Ending.kept, Ending.marks]

end Writer

theorem Turn.Sends.marked {e : Ending} {fs : List Frame} {c : Channel} {t : Turn}
    (h : t.Sends false [] e fs c) (hc : c.frames.length ≤ c.capacity) :
    Marked fs c t.answer t.channel := by
  cases h with
  | onward w gs hb => contradiction
  | last hb ho hw ht hr =>
    refine ⟨?_, by rw [ht, List.take_of_length_le hr], ?_⟩
    · rw [if_pos hr, Turn.answer, ho]
    · rw [Turn.answer, ho]
      rintro ⟨⟩
  | stalled w call hb ho hw ht hf hr hD =>
    refine ⟨?_, ht, fun _ => ?_⟩
    · rw [if_neg (Nat.not_le_of_lt hr), Turn.answer, ho]
    · rw [ht, Channel.frames_extend, List.length_append, List.length_take, Channel.capacity_extend]
      unfold Channel.room at hr ⊢
      omega

section Steps

variable {s : Stream} {w : Writer} {t : Token} {op : Op}

theorem writer?_step_writes (hw : s.writing = .idle w) (ho : op.Writes t) :
    (s.step op).stream.writing.writer? = (w.write t s.channel).writing.writer? := by
  rcases ho with rfl | rfl
  · rw [step, withWriter, hw]
    rcases w.write_writing t s.channel with ⟨w', -, hi⟩ | ⟨w', call, hc, hi⟩
    · simp only [stream_ofTurn, hi, Writing.cancel]
    · cases call <;> cases hc <;> simp only [stream_ofTurn, hi, Writing.cancel] <;> rfl
  · rw [step, withWriter, hw]
    rfl

theorem wrote_step {ts : List Token} {m : Merger} {n : Nat} (hw : s.writing = .idle w)
    (ho : op.Writes t)
    (h : Wrote ts m n s.channel (w.write t s.channel).answer (w.write t s.channel).writing
      (w.write t s.channel).channel) :
    Wrote ts m n s.channel (s.step op).answer (s.step op).stream.writing
      (s.step op).stream.channel := by
  obtain ⟨ha, hc, -, -⟩ := step_writes hw ho
  obtain ⟨h₁, h₂, v, hv, h₃⟩ := h
  exact ⟨ha.trans h₁, hc.trans h₂, v, (writer?_step_writes hw ho).trans hv, h₃⟩

/-- With an empty outbox, no write of a literal that opens a run or joins it has to wait. -/
theorem answer_write_of_joining (hl : s.channel.listening = true) (hw : s.writing = .idle w)
    (ho : op.Writes t) (hz : w.outbox.length = 0) (hk : t.kind = .literal)
    (hj : ∀ r ∈ w.merger.pending, r.span.stop = t.span.start) : (s.step op).answer = .ok := by
  have he := (w.merger.length_push_eq_zero_iff t).2 ⟨hk, hj⟩
  have hle : w.outbox.length ≤ s.channel.room := by omega
  rw [(wrote_step hw ho (Writer.wrote_of_le hl t hle)).answer, List.length_append,
    Emitted.length_toList, Emitted.length_toList, hz, he]
  exact if_pos (Nat.zero_le _)

theorem marked_close (hl : s.channel.listening = true)
    (hf : s.channel.frames.length ≤ s.channel.capacity) (hw : s.writing = .idle w) :
    Marked ((w.outbox.toList ++ w.merger.held).map .token ++ [.closed]) s.channel
      (s.step .close).answer (s.step .close).stream.channel := by
  have hs := (w.sends_close hl).marked hf
  rw [w.script_close] at hs
  rw [step, withWriter, hw]
  exact hs

theorem marked_abort (hl : s.channel.listening = true)
    (hf : s.channel.frames.length ≤ s.channel.capacity) (hw : s.writing = .idle w) (r : Reason) :
    Marked (w.outbox.toList.map .token ++ [.aborted r]) s.channel (s.step (.abort r)).answer
      (s.step (.abort r)).stream.channel := by
  have hs := (w.sends_abort hl r).marked hf
  rw [w.script_abort] at hs
  rw [step, withWriter, hw]
  exact hs

end Steps

theorem Marked.answer_eq_ok_iff {fs : List Frame} {c c' : Channel} {a : Answer}
    (h : Marked fs c a c') : a = .ok ↔ fs.length ≤ c.room := by
  rw [h.answer]
  split <;> simp [*]

theorem Reader.poll_eq_pending_iff (r : Reader) (alone : Bool) (c : Channel) :
    (r.poll alone c).1 = .pending ↔ c.frames = [] ∧ alone = false ∧ c.listening = true := by
  rcases r.poll_cases alone c with ⟨hl, he⟩ | ⟨hl, t, fs, hf, he⟩ | ⟨hl, fs, hf, he⟩ |
      ⟨hl, e, fs, hf, he⟩ | ⟨hl, hf, ha, he⟩ | ⟨hl, hf, ha, he⟩ <;>
    rw [he] <;> simp [*]

theorem answer_next {s : Stream} {r : Reader} (hr : s.reading = .idle r) :
    ((s.step .next).answer = .pending ↔ (r.poll s.alone s.channel).1 = .pending) ∧
      ∀ t, (r.poll s.alone s.channel).1 = .token t → (s.step .next).answer = .token t := by
  rw [step, withReader, hr]
  rcases hp : r.poll s.alone s.channel with ⟨i, r', c, es⟩
  cases i <;> simp [ofItem, hp]

theorem Phase.listening_of_frames {A R : List Token} {E : List Ending} {V : List Item}
    {reading : Reading} {writing : Writing} {c : Channel} (h : Phase A R E V reading writing c)
    (hr : reading ≠ .gone) (hf : c.frames ≠ []) : c.listening = true := by
  cases h with
  | writing hw hE hV hl => exact hl.2 hr
  | ended e hw hE hV hl => exact hl
  | told e k hw hE hV hl hn => exact absurd hn hf
  | abandoned hw hV hl hg => exact absurd hg hr

namespace History

variable {h : History}

theorem Reachable.frames_le (hr : h.Reachable) :
    h.stream.channel.frames.length ≤ h.stream.channel.capacity := by
  obtain ⟨n, hb⟩ := hr.bounded
  rw [hb.channel.capacity]
  exact hb.channel.frames

theorem Reachable.poll_eq_pending_iff (hr : h.Reachable) (hg : h.stream.reading ≠ .gone)
    (r : Reader) :
    ((r.poll h.stream.alone h.stream.channel).1 = .pending ↔ h.stream.channel.frames = [] ∧
      h.stream.writing ≠ .gone ∧ h.stream.channel.listening = true) ∧
    ∀ t fs, h.stream.channel.frames = .token t :: fs →
      (r.poll h.stream.alone h.stream.channel).1 = .token t := by
  refine ⟨?_, ?_⟩
  · rw [r.poll_eq_pending_iff, ne_eq, ← alone_iff, Bool.not_eq_true]
  · intro t fs hf
    have hl := hr.sound.phase.listening_of_frames hg (by rw [hf]; nofun)
    rw [Reader.poll_of_token hl hf]

/-- What one poll comes to is settled by how much room there is. A write is accepted if there is
room for what waits in the outbox, and has to wait if there is none for what it makes final. A close
and an abort need one place more than what they send before the mark. The reader waits for nothing
but an empty buffer. -/
theorem admission (hr : h.Reachable) (hg : h.stream.reading ≠ .gone) :
    let s := h.stream
    let c := s.channel
    (∀ w, s.writing = .idle w →
      (∀ t op, op = .write t ∨ op = .startWrite t →
        (c.room < w.outbox.length →
          Wrote w.outbox.toList w.merger w.written c (s.step op).answer (s.step op).stream.writing
            (s.step op).stream.channel) ∧
        (w.outbox.length ≤ c.room →
          Wrote (w.outbox.toList ++ (w.merger.push t).1.toList) (w.merger.push t).2 (w.written + 1)
            c (s.step op).answer (s.step op).stream.writing (s.step op).stream.channel) ∧
        (w.outbox.length = 0 → t.kind = .literal →
          (∀ r ∈ w.merger.pending, r.span.stop = t.span.start) → (s.step op).answer = .ok)) ∧
      Marked ((w.outbox.toList ++ w.merger.held).map .token ++ [.closed]) c (s.step .close).answer
        (s.step .close).stream.channel ∧
      ((s.step .close).answer = .ok ↔
        w.outbox.length + w.merger.hasPending.toNat + 1 ≤ c.room) ∧
      ∀ r, Marked (w.outbox.toList.map .token ++ [.aborted r]) c (s.step (.abort r)).answer
          (s.step (.abort r)).stream.channel ∧
        ((s.step (.abort r)).answer = .ok ↔ w.outbox.length + 1 ≤ c.room)) ∧
    (∀ r, s.reading = .idle r ∨ (∃ taken, s.reading = .collecting r taken) →
      ((r.poll s.alone c).1 = .pending ↔
        c.frames = [] ∧ s.writing ≠ .gone ∧ c.listening = true) ∧
      ∀ t fs, c.frames = .token t :: fs → (r.poll s.alone c).1 = .token t) ∧
    ∀ r, s.reading = .idle r →
      ((s.step .next).answer = .pending ↔
        c.frames = [] ∧ s.writing ≠ .gone ∧ s.isTerminated = some false) ∧
      ∀ t fs, c.frames = .token t :: fs → (s.step .next).answer = .token t := by
  intro s c
  have hf := hr.frames_le
  refine ⟨?_, fun r _ => hr.poll_eq_pending_iff hg r, ?_⟩
  · intro w hw
    obtain ⟨-, -, -, hreads⟩ := hr.sound.phase.of_writing (by simp [s, hw])
    have hl : c.listening = true := hreads.2 hg
    refine ⟨?_, ?_⟩
    · intro t op ho
      exact ⟨fun hlt => wrote_step hw ho (Writer.wrote_of_lt hl t hlt),
        fun hle => wrote_step hw ho (Writer.wrote_of_le hl t hle),
        answer_write_of_joining hl hw ho⟩
    · have hc := marked_close hl hf hw
      refine ⟨hc, ?_, ?_⟩
      · rw [hc.answer_eq_ok_iff, List.length_append, List.length_map, List.length_append,
          ← w.backlog_eq]
        rfl
      · intro r
        have ha := marked_abort hl hf hw r
        refine ⟨ha, ?_⟩
        rw [ha.answer_eq_ok_iff, List.length_append, List.length_map, Emitted.length_toList]
        rfl
  · intro r hi
    obtain ⟨hp, ht⟩ := hr.poll_eq_pending_iff hg r
    obtain ⟨ha, hn⟩ := answer_next hi
    refine ⟨?_, fun t fs hf => hn t (ht t fs hf)⟩
    rw [ha, hp]
    simp [isTerminated, reader?, s, c, hi]

/-- Of two places one is taken, and an interpolation waits for the other. A literal is accepted at
once. An interpolation is accepted and has to wait, and so has a close. -/
theorem admission_crowded :
    let a : Token := ⟨.interpolation, "a", ⟨0, 1⟩⟩
    let b : Token := ⟨.interpolation, "b", ⟨1, 2⟩⟩
    let c : Token := ⟨.interpolation, "c", ⟨2, 3⟩⟩
    let d : Token := ⟨.literal, "d", ⟨3, 4⟩⟩
    let h := ({ stream := { channel := { capacity := 2 } } } : History).run
      [.write a, .write b, .write c, .next]
    let s := h.stream
    s.reading ≠ .gone ∧ s.writing = .idle ⟨{}, ⟨none, some c⟩, 3, 2⟩ ∧ s.channel.room = 1 ∧
      (s.step (.write d)).answer = .ok ∧
      Wrote [c, a] {} 4 s.channel (s.step (.write a)).answer (s.step (.write a)).stream.writing
        (s.step (.write a)).stream.channel ∧
      (s.step (.write a)).answer = .pending ∧
      (s.step .close).answer = .pending ∧
      (s.step .close).stream.channel.frames = [.token b, .token c] ∧
      (s.step .next).answer = .token b := by
  intro a b c d h s
  have hr : h.Reachable := (Reachable.start (rfl : withCapacity 2 = _)).run _
  have hg : s.reading ≠ .gone := by decide +kernel
  have hw : s.writing = .idle ⟨{}, ⟨none, some c⟩, 3, 2⟩ := by decide +kernel
  have hroom : s.channel.room = 1 := by decide +kernel
  obtain ⟨hwriter, -, hreader⟩ := admission hr hg
  obtain ⟨hwrite, hclose, -, -⟩ := hwriter _ hw
  obtain ⟨-, hd, -⟩ := hwrite d (.write d) (.inl rfl)
  obtain ⟨-, ha, -⟩ := hwrite a (.write a) (.inl rfl)
  have ha := ha (by decide +kernel)
  refine ⟨hg, hw, hroom, ?_, ha, ?_, ?_, ?_, ?_⟩
  · exact (hd (by decide +kernel)).answer.trans (by decide +kernel)
  · exact ha.answer.trans (by decide +kernel)
  · exact hclose.answer.trans (by decide +kernel)
  · rw [hclose.channel]
    decide +kernel
  · exact (hreader ⟨1⟩ (by decide +kernel)).2 b [] (by decide +kernel)

end History

end Coalesce.Stream
