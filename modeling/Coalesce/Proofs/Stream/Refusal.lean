import Coalesce.Proofs.Stream.Sound

namespace Coalesce

/-- A push makes nothing final exactly if its token is a literal that opens a run or joins it. -/
theorem Merger.length_push_eq_zero_iff (m : Merger) (t : Token) :
    (m.push t).1.length = 0 ↔
      t.kind = .literal ∧ ∀ r ∈ m.pending, r.span.stop = t.span.start := by
  obtain ⟨p⟩ := m
  cases hk : t.kind with
  | interpolation => simp [push_interpolation _ hk, Emitted.length]
  | literal =>
    cases p with
    | none => simp [push_opening hk, Emitted.length]
    | some r =>
      by_cases hs : r.span.stop = t.span.start
      · simp [push_touching hk hs, Emitted.length, hs]
      · simp [push_apart hk hs, Emitted.length, Emitted.singleton, hs]

namespace Stream

/-- A write that waits has something to send. -/
def Writing.Waits (writing : Writing) : Prop :=
  ∀ w call, writing = .busy w call → call.writes = true → 0 < w.outbox.length

namespace Writer

variable {c : Channel}

/-- With no reader left, `next` follows if there is nothing to send. -/
theorem drained_of_deaf (w : Writer) (hl : c.listening = false) (call : Call)
    (left : Writer → Writing) (next : Writer → Channel → Turn) :
    w.drained c call left next =
      if w.outbox.length = 0 then next w c else .refused (left w) c := by
  rw [drained, drain_of_deaf w hl]
  by_cases ho : w.outbox.length = 0
  · simp only [if_pos ho]
  · simp only [if_neg ho]

theorem settle_of_deaf (w : Writer) (hl : c.listening = false) :
    w.settle c =
      if w.outbox.length = 0 then .succeeded (.idle w) c else .refused (.idle w) c :=
  w.drained_of_deaf hl .settle .idle fun w c => .succeeded (.idle w) c

theorem write_of_deaf (w : Writer) (t : Token) (hl : c.listening = false) :
    w.write t c =
      if w.outbox.length = 0 then (w.accept t).settle c else .refused (.idle w) c :=
  w.drained_of_deaf hl (.write t) .idle fun w c => (w.accept t).settle c

/-- A write that sends nothing succeeds. Any other is refused and leaves something to send behind,
with which all is as before if there had been something before. -/
theorem write_deaf_cases (w : Writer) (t : Token) (hl : c.listening = false) :
    ((w.outbox.length = 0 ∧ t.kind = .literal ∧
        ∀ r ∈ w.merger.pending, r.span.stop = t.span.start) ∧
      w.write t c = .succeeded (.idle (w.accept t)) c) ∨
    (¬ (w.outbox.length = 0 ∧ t.kind = .literal ∧
        ∀ r ∈ w.merger.pending, r.span.stop = t.span.start) ∧
      ∃ w', 0 < w'.outbox.length ∧ (0 < w.outbox.length → w' = w) ∧
        w.write t c = .refused (.idle w') c) := by
  rw [write_of_deaf w t hl]
  by_cases ho : w.outbox.length = 0
  · rw [if_pos ho, settle_of_deaf _ hl]
    by_cases hp : (w.merger.push t).1.length = 0
    · exact .inl ⟨⟨ho, (w.merger.length_push_eq_zero_iff t).1 hp⟩, if_pos hp⟩
    · exact .inr ⟨fun h => hp ((w.merger.length_push_eq_zero_iff t).2 h.2), w.accept t,
        Nat.pos_of_ne_zero hp, by omega, if_neg hp⟩
  · exact .inr ⟨fun h => ho h.1, w, Nat.pos_of_ne_zero ho, fun _ => rfl, if_neg ho⟩

theorem mark_of_deaf (w : Writer) (f : Frame) (call : Call) (log : List Event)
    (hl : c.listening = false) : w.mark f call log c = .refused .gone c := by
  rw [mark, Channel.send_of_deaf hl]

theorem abortOn_of_deaf (w : Writer) (r : Reason) (hl : c.listening = false) :
    w.abortOn r c = .refused .gone c := by
  rw [abortOn, drained_of_deaf w hl]
  split
  · exact w.mark_of_deaf _ _ _ hl
  · rfl

theorem close_of_deaf (w : Writer) (hl : c.listening = false) :
    ∃ es, w.close c = (Turn.refused .gone c).after es := by
  rw [close, drained_of_deaf w hl]
  split
  · refine ⟨w.flush.2, ?_⟩
    rw [drained_of_deaf _ hl]
    split
    · rw [mark_of_deaf _ _ _ _ hl]
    · rfl
  · exact ⟨[], rfl⟩

theorem outbox_unload_pos {w : Writer} {n : Nat} (h : ¬ w.outbox.length ≤ n) :
    0 < (w.unload n).outbox.length := by
  rw [← Emitted.length_toList, toList_outbox_unload, List.length_drop, Emitted.length_toList]
  omega

theorem waits_settle (w : Writer) (c : Channel) : (w.settle c).writing.Waits := by
  intro w' call h _
  cases hl : c.listening with
  | true =>
    rw [settle_of_listening w hl] at h
    split at h
    · cases h
    · cases h
      exact outbox_unload_pos ‹_›
  | false =>
    rw [settle_of_deaf w hl] at h
    split at h <;> cases h

theorem waits_write (w : Writer) (t : Token) (c : Channel) : (w.write t c).writing.Waits := by
  cases hl : c.listening with
  | true =>
    rw [write_of_listening w t hl]
    split
    · exact waits_settle _ _
    · rintro w' call ⟨⟩ -
      exact outbox_unload_pos ‹_›
  | false =>
    rcases w.write_deaf_cases t hl with ⟨-, he⟩ | ⟨-, v, -, -, he⟩ <;> rw [he] <;>
      rintro w' call ⟨⟩

theorem waits_mark (w : Writer) (f : Frame) {call : Call} (hc : call.writes = false)
    (log : List Event) (c : Channel) : (w.mark f call log c).writing.Waits := by
  rcases w.mark_cases f call log c with ⟨-, -, he⟩ | ⟨-, -, he⟩ | ⟨-, he⟩ <;> rw [he]
  · rintro v call ⟨⟩
  · rintro v call ⟨⟩ hw
    rw [hc] at hw
    contradiction
  · rintro v call ⟨⟩

theorem waits_abortOn (w : Writer) (r : Reason) (c : Channel) :
    (w.abortOn r c).writing.Waits := by
  apply drained_induction (P := fun t => t.writing.Waits)
  · intro w c
    exact w.waits_mark _ rfl _ c
  · rintro w c v call ⟨⟩ ⟨⟩
  · rintro w c v call ⟨⟩

theorem waits_close (w : Writer) (c : Channel) : (w.close c).writing.Waits := by
  apply drained_induction (P := fun t => t.writing.Waits)
  · intro w c
    apply drained_induction (P := fun t => (t.after w.flush.2).writing.Waits)
    · intro v c
      exact v.waits_mark _ rfl _ c
    · rintro w c v call ⟨⟩ ⟨⟩
    · rintro w c v call ⟨⟩
  · rintro w c v call ⟨⟩ ⟨⟩
  · rintro w c v call ⟨⟩

end Writer

variable {s : Stream}

theorem withWriter_induction {P : Stream → Prop} {act : Writer → Step} (hs : P s)
    (ha : ∀ w, s.writing = .idle w → P (act w).stream) : P (s.withWriter act).stream := by
  unfold withWriter
  split
  · exact ha _ ‹_›
  · exact hs
  · exact hs

theorem withReader_induction {P : Stream → Prop} {act : Reader → Step} (hs : P s)
    (ha : ∀ r, s.reading = .idle r → P (act r).stream) : P (s.withReader act).stream := by
  unfold withReader
  split
  · exact ha _ ‹_›
  · exact hs
  · exact hs

theorem Writing.Waits.cancel {writing : Writing} (h : writing.Waits) (c : Channel) :
    (writing.cancel c).1.Waits := by
  rcases writing with w | ⟨w, t | _ | _ | r⟩ | _ <;> rintro v call ⟨⟩

theorem waits_step (hs : s.writing.Waits) (op : Op) : (s.step op).stream.writing.Waits := by
  cases op with
  | write t =>
    apply withWriter_induction (P := (·.writing.Waits)) hs
    intro w _
    exact (w.waits_write t s.channel).cancel _
  | startWrite t =>
    apply withWriter_induction (P := (·.writing.Waits)) hs
    intro w _
    exact w.waits_write t s.channel
  | close =>
    apply withWriter_induction (P := (·.writing.Waits)) hs
    intro w _
    exact w.waits_close s.channel
  | abort r =>
    apply withWriter_induction (P := (·.writing.Waits)) hs
    intro w _
    exact Writer.waits_abortOn _ r s.channel
  | pollWriter =>
    rw [step]
    split
    · rename_i w call _
      cases call with
      | write t => exact w.waits_write t s.channel
      | settle => exact w.waits_settle s.channel
      | close => exact w.waits_close s.channel
      | abort r => exact w.waits_abortOn r s.channel
    · exact hs
  | cancelWriter =>
    rw [step, cancelWriter]
    split
    · exact hs.cancel _
    · exact hs
  | dropWriter =>
    apply withWriter_induction (P := (·.writing.Waits)) hs
    rintro w _ v call ⟨⟩
  | next => exact withReader_induction (P := (·.writing.Waits)) hs fun _ _ => hs
  | collect => exact withReader_induction (P := (·.writing.Waits)) hs fun _ _ => hs
  | dropReader => exact withReader_induction (P := (·.writing.Waits)) hs fun _ _ => hs
  | pollReader =>
    rw [step]
    split <;> exact hs
  | cancelReader =>
    rw [step]
    split <;> exact hs

/-- Nobody reads any more, and the writer, if it is there, has tokens left to send. -/
structure Spent (s : Stream) : Prop where
  reading : s.reading = .gone
  deaf : s.channel.listening = false
  writing : s.writing = .gone ∨ ∃ w, s.writing = .idle w ∧ 0 < w.outbox.length

namespace Spent

variable {w : Writer} {t : Token}

theorem step_write (h : s.Spent) (hw : s.writing = .idle w) (t : Token) :
    s.step (.startWrite t) = s.stay (.failed .readerDropped) ∧
      s.step (.write t) = s.stay (.failed .readerDropped) := by
  have hp : 0 < w.outbox.length := by
    rcases h.writing with hg | ⟨v, hv, hp⟩
    · rw [hw] at hg
      contradiction
    · rw [hw] at hv
      cases hv
      exact hp
  have he : w.write t s.channel = .refused (.idle w) s.channel := by
    rw [w.write_of_deaf t h.deaf, if_neg (Nat.ne_of_gt hp)]
  have hs : { s with writing := .idle w } = s := by rw [← hw]
  refine ⟨?_, ?_⟩
  · rw [step, withWriter, hw]
    simp only [he]
    rw [ofTurn, stay]
    simp only [Turn.refused, hs]
  · rw [step, withWriter, hw]
    simp only [he]
    rw [ofTurn, stay]
    simp only [Turn.refused, Writing.cancel, hs]

theorem not_busy (h : s.Spent) (w : Writer) (call : Call) : s.writing ≠ .busy w call := by
  rcases h.writing with hg | ⟨v, hv, -⟩
  · rw [hg]
    nofun
  · rw [hv]
    nofun

theorem leave (h : s.Spent) {writing : Writing} (hw : writing = .gone) :
    Spent { s with writing } := ⟨h.reading, h.deaf, .inl hw⟩

theorem step (h : s.Spent) (op : Op) : (s.step op).stream.Spent := by
  have hread : ∀ act, (s.withReader act).stream.Spent := by
    intro act
    apply withReader_induction h
    intro r hr
    rw [h.reading] at hr
    contradiction
  cases op with
  | write t =>
    apply withWriter_induction h
    intro w hw
    have he := (h.step_write hw t).2
    rw [Stream.step, withWriter, hw] at he
    exact (congrArg Step.stream he).symm ▸ h
  | startWrite t =>
    apply withWriter_induction h
    intro w hw
    have he := (h.step_write hw t).1
    rw [Stream.step, withWriter, hw] at he
    exact (congrArg Step.stream he).symm ▸ h
  | close =>
    apply withWriter_induction h
    intro w _
    obtain ⟨es, he⟩ := w.close_of_deaf h.deaf
    rw [he]
    exact h.leave rfl
  | abort r =>
    apply withWriter_induction h
    intro w _
    rw [Writer.abort, Writer.abortOn_of_deaf _ r h.deaf]
    exact h.leave rfl
  | dropWriter =>
    apply withWriter_induction h
    intro w _
    exact h.leave rfl
  | pollWriter =>
    rw [Stream.step]
    split
    · exact absurd ‹_› (h.not_busy _ _)
    · exact h
  | cancelWriter =>
    rw [Stream.step, Stream.cancelWriter]
    split
    · exact absurd ‹_› (h.not_busy _ _)
    · exact h
  | next => exact hread _
  | collect => exact hread _
  | dropReader => exact hread _
  | pollReader => simpa [Stream.step, stay, h.reading] using h
  | cancelReader => simpa [Stream.step, stay, h.reading] using h

end Spent

section Answers

variable {w : Writer}

theorem answer_close_of_deaf (hl : s.channel.listening = false) (hw : s.writing = .idle w) :
    (s.step .close).answer = .failed .readerDropped := by
  obtain ⟨es, he⟩ := w.close_of_deaf hl
  rw [step, withWriter, hw]
  simp only [he]
  rfl

theorem answer_abort_of_deaf (hl : s.channel.listening = false) (hw : s.writing = .idle w)
    (r : Reason) : (s.step (.abort r)).answer = .failed .readerDropped := by
  rw [step, withWriter, hw]
  simp only [Writer.abort, Writer.abortOn_of_deaf _ r hl]
  rfl

theorem answer_poll_of_deaf {call : Call} (hl : s.channel.listening = false)
    (hs : s.writing.Waits) (hw : s.writing = .busy w call) :
    (s.step .pollWriter).answer = .failed .readerDropped := by
  rw [step, hw]
  cases call with
  | write t =>
    have hp := hs w _ hw rfl
    simp only [Writer.poll, w.write_of_deaf t hl, if_neg (Nat.ne_of_gt hp)]
    rfl
  | settle =>
    have hp := hs w _ hw rfl
    simp only [Writer.poll, w.settle_of_deaf hl, if_neg (Nat.ne_of_gt hp)]
    rfl
  | close =>
    obtain ⟨es, he⟩ := w.close_of_deaf hl
    simp only [Writer.poll, he]
    rfl
  | abort r =>
    simp only [Writer.poll, w.abortOn_of_deaf r hl]
    rfl

def Op.Writes (t : Token) (op : Op) : Prop := op = .write t ∨ op = .startWrite t

theorem step_writes {t : Token} {op : Op} (hw : s.writing = .idle w) (ho : op.Writes t) :
    (s.step op).answer = (w.write t s.channel).answer ∧
      (s.step op).stream.channel = (w.write t s.channel).channel ∧
      (s.step op).stream.reading = s.reading ∧
      ∀ w', (w.write t s.channel).writing = .idle w' → (s.step op).stream.writing = .idle w' := by
  rcases ho with rfl | rfl
  · rw [step, withWriter, hw]
    refine ⟨rfl, rfl, rfl, fun w' hi => ?_⟩
    rw [stream_ofTurn]
    simp only [hi, Writing.cancel]
  · rw [step, withWriter, hw]
    exact ⟨rfl, rfl, rfl, fun w' hi => hi⟩

theorem answer_write_of_deaf (hl : s.channel.listening = false) (hw : s.writing = .idle w)
    {t : Token} {op : Op} (ho : op.Writes t) :
    (s.step op).answer =
      if w.outbox.length = 0 ∧ t.kind = .literal ∧
          ∀ r ∈ w.merger.pending, r.span.stop = t.span.start
        then .ok else .failed .readerDropped := by
  rw [(step_writes hw ho).1]
  rcases w.write_deaf_cases t hl with ⟨hz, he⟩ | ⟨hz, w', -, -, he⟩ <;> rw [he]
  · rw [if_pos hz]
    rfl
  · rw [if_neg hz]
    rfl

/-- A write that is refused leaves tokens behind that can never be sent. -/
theorem spent_of_write (hg : s.reading = .gone) (hl : s.channel.listening = false)
    (hw : s.writing = .idle w) {t : Token} {op : Op} (ho : op.Writes t)
    (hf : (s.step op).answer = .failed .readerDropped) : (s.step op).stream.Spent := by
  obtain ⟨ha, hc, hr, hi⟩ := step_writes hw ho
  rw [ha] at hf
  rcases w.write_deaf_cases t hl with ⟨-, he⟩ | ⟨-, w', hp, -, he⟩
  · rw [he] at hf
    contradiction
  · refine ⟨hr.trans hg, ?_, .inr ⟨w', hi w' (by rw [he]; rfl), hp⟩⟩
    rw [hc, he]
    exact hl

theorem spent_of_poll (hg : s.reading = .gone) (hl : s.channel.listening = false)
    (hs : s.writing.Waits) {call : Call} (hw : s.writing = .busy w call)
    (hc : call.writes = true) : (s.step .pollWriter).stream.Spent := by
  have hp := hs w call hw hc
  rw [step, hw]
  cases call with
  | write t =>
    simp only [Writer.poll, w.write_of_deaf t hl, if_neg (Nat.ne_of_gt hp)]
    exact ⟨hg, hl, .inr ⟨w, rfl, hp⟩⟩
  | settle =>
    simp only [Writer.poll, w.settle_of_deaf hl, if_neg (Nat.ne_of_gt hp)]
    exact ⟨hg, hl, .inr ⟨w, rfl, hp⟩⟩
  | close => contradiction
  | abort r => contradiction

theorem answer_ne_pending (hg : s.reading = .gone)
    (hl : s.writing ≠ .gone → s.channel.listening = false) (hs : s.writing.Waits) (op : Op) :
    (s.step op).answer ≠ .pending := by
  cases hw : s.writing with
  | gone =>
    cases op <;> simp [step, withWriter, withReader, cancelWriter, stay, hw, hg]
  | busy w call =>
    have hl := hl (by simp [hw])
    cases op with
    | pollWriter => simp [answer_poll_of_deaf hl hs hw]
    | _ => simp [step, withWriter, withReader, cancelWriter, stay, hw, hg]
  | idle w =>
    have hl := hl (by simp [hw])
    have hwrite : ∀ t, Op.Writes t op → (s.step op).answer ≠ .pending := by
      intro t ho
      rw [answer_write_of_deaf hl hw ho]
      split <;> simp
    cases op with
    | write t => exact hwrite t (.inl rfl)
    | startWrite t => exact hwrite t (.inr rfl)
    | close => simp [answer_close_of_deaf hl hw]
    | abort r => simp [answer_abort_of_deaf hl hw r]
    | _ => simp [step, withWriter, withReader, cancelWriter, stay, hw, hg]

end Answers

namespace History

variable {h : History}

theorem Reachable.waits (hr : h.Reachable) : h.stream.writing.Waits := by
  induction hr with
  | start hs =>
    rw [eq_of_withCapacity hs]
    rintro w call ⟨⟩
  | step op hr ih => exact waits_step ih op

theorem spent_run (hs : h.stream.Spent) (ops : List Op) : (h.run ops).stream.Spent := by
  induction ops generalizing h with
  | nil => exact hs
  | cons op ops ih => exact ih (h := h.step op) (hs.step op)

/-- A reader that was dropped never lets the writer wait. Every call that needs the channel is told
of it, a write only if it has something to send, and once a write has been told, all later ones are,
and change nothing. -/
theorem refusal (hr : h.Reachable) (hg : h.stream.reading = .gone) :
    (∀ op, (h.stream.step op).answer ≠ .pending) ∧
    (∀ w call, h.stream.writing = .busy w call →
      (h.stream.step .pollWriter).answer = .failed .readerDropped) ∧
    (∀ w, h.stream.writing = .idle w →
      (h.stream.step .close).answer = .failed .readerDropped ∧
      (∀ r, (h.stream.step (.abort r)).answer = .failed .readerDropped) ∧
      ∀ t op, op = .write t ∨ op = .startWrite t → (h.stream.step op).answer =
        if w.outbox.length = 0 ∧ t.kind = .literal ∧
            ∀ r ∈ w.merger.pending, r.span.stop = t.span.start
          then .ok else .failed .readerDropped) ∧
    ∀ op, (h.stream.step op).answer = .failed .readerDropped →
      ((∃ w t, h.stream.writing = .idle w ∧ (op = .write t ∨ op = .startWrite t)) ∨
        ∃ w call, h.stream.writing = .busy w call ∧ call.writes = true ∧ op = .pollWriter) →
      ∀ ops w, let s := ((h.step op).run ops).stream
        s.writing = .idle w →
        (∀ t op, op = .write t ∨ op = .startWrite t →
          (s.step op).answer = .failed .readerDropped ∧
          (s.step op).stream.written = s.written ∧
          (s.step op).stream.hasPending = s.hasPending) ∧
        (s.step .close).answer = .failed .readerDropped ∧
        ∀ r, (s.step (.abort r)).answer = .failed .readerDropped := by
  have hl : h.stream.writing ≠ .gone → h.stream.channel.listening = false := by
    intro hw
    obtain ⟨-, -, -, hl⟩ := hr.sound.phase.of_writing hw
    simpa [hg] using hl
  have hidle : ∀ w, h.stream.writing = .idle w → h.stream.channel.listening = false :=
    fun w hw => hl (by simp [hw])
  have hbusy : ∀ w call, h.stream.writing = .busy w call → h.stream.channel.listening = false :=
    fun w call hw => hl (by simp [hw])
  refine ⟨answer_ne_pending hg hl hr.waits, ?_, ?_, ?_⟩
  · intro w call hw
    exact answer_poll_of_deaf (hbusy w call hw) hr.waits hw
  · intro w hw
    refine ⟨answer_close_of_deaf (hidle w hw) hw, answer_abort_of_deaf (hidle w hw) hw, ?_⟩
    intro t op ho
    exact answer_write_of_deaf (hidle w hw) hw ho
  · intro op hf ho ops w s hw
    -- The tokens that are left in the outbox stay there for good.
    have hs : s.Spent := by
      apply spent_run (h := h.step op)
      rcases ho with ⟨v, t, hv, ho⟩ | ⟨v, call, hv, hc, rfl⟩
      · exact spent_of_write hg (hidle v hv) hv ho hf
      · exact spent_of_poll hg (hbusy v call hv) hr.waits hv hc
    refine ⟨?_, answer_close_of_deaf hs.deaf hw, answer_abort_of_deaf hs.deaf hw⟩
    rintro t op (rfl | rfl)
    · rw [(hs.step_write hw t).2]
      exact ⟨rfl, rfl, rfl⟩
    · rw [(hs.step_write hw t).1]
      exact ⟨rfl, rfl, rfl⟩

/-- The reader is dropped while a run is open: a literal that joins the run is still accepted, an
interpolation is refused, and after it even the literal. -/
theorem refusal_joining :
    let a : Token := ⟨.literal, "a", ⟨0, 1⟩⟩
    let b : Token := ⟨.interpolation, "b", ⟨2, 3⟩⟩
    let c : Token := ⟨.literal, "c", ⟨1, 2⟩⟩
    let h := ({ stream := { channel := { capacity := 1 } } } : History).run [.write a, .dropReader]
    let s := (h.step (.write b)).stream
    h.stream.reading = .gone ∧ (h.stream.step (.write c)).answer = .ok ∧
      (h.stream.step (.write b)).answer = .failed .readerDropped ∧
      (s.step (.write c)).answer = .failed .readerDropped ∧
      (s.step (.write c)).stream.written = some 2 ∧
      (s.step .close).answer = .failed .readerDropped := by
  intro a b c h s
  have hr : h.Reachable := (Reachable.start (rfl : withCapacity 1 = _)).run _
  have hg : h.stream.reading = .gone := by decide +kernel
  have hw : h.stream.writing = .idle ⟨⟨some ⟨"a", ⟨0, 1⟩⟩⟩, {}, 1, 0⟩ := by decide +kernel
  have hs : s.writing = .idle ⟨{}, ⟨some a, some b⟩, 2, 0⟩ := by decide +kernel
  obtain ⟨-, -, hi, hlater⟩ := refusal hr hg
  obtain ⟨-, -, hwrite⟩ := hi _ hw
  have hb : (h.stream.step (.write b)).answer = .failed .readerDropped :=
    (hwrite b _ (.inl rfl)).trans (by decide +kernel)
  obtain ⟨hstuck, hc, -⟩ := hlater _ hb (.inl ⟨_, b, hw, .inl rfl⟩) [] _ hs
  obtain ⟨ha, hn, -⟩ := hstuck c _ (.inl rfl)
  exact ⟨hg, (hwrite c _ (.inl rfl)).trans (by decide +kernel), hb, ha,
    hn.trans (by decide +kernel), hc⟩

end History

end Stream

end Coalesce
