import Coalesce.Proofs.Stream.Log

namespace Coalesce

namespace Stream

variable {A R : List Token} {w : Writer} {log : List Event}

def logged (s : Stream) (ops : List Op) : List Event := (s.run ops).flatMap (·.log)

def aborting? (s : Stream) (op : Op) : Option Reason :=
  match s.writing, op with
  | .idle _, .abort r => some r
  | _, _ => none

theorem Turn.Continues.answer_ne {turn : Turn} {t : Token} {n : Nat} {l : Bool}
    (h : turn.Continues t n l) : turn.answer ≠ .failed .writerDropped := by
  have ha : turn.answer = .ok ∨ turn.answer = .pending ∨ turn.answer = .failed .readerDropped :=
    h.sound.answer
  rcases ha with ha | ha | ha <;> rw [ha] <;> nofun

theorem Turn.Concludes.answer_ne {e : Ending} {l : Bool} {t : Turn} (h : t.Concludes e A R l) :
    t.answer ≠ .failed .writerDropped := by
  cases h with
  | suspended w call ho => simp [Turn.answer, ho]
  | succeeded ho => simp [Turn.answer, ho]
  | refused ho => simp [Turn.answer, ho]

namespace History

/-- What an operation logs, where `log` has been logged before. -/
structure Entry (h : History) (log : List Event) (op : Op) : Prop where
  /-- Every token that is taken out, by its kind and span. -/
  delivered : about "token delivered" (h.stream.step op).log =
    (h.stream.drawn op).map fun t => .delivered t.kind t.span
  /-- A close that succeeds, with the counts of what was accepted and of what came of it. -/
  closed : about "token writer closed" (h.stream.step op).log =
    if h.stream.ending? op = some .close then
      [.closed h.accepted.length (compress h.accepted).length] else []
  /-- A close alone flushes, and only the last token that comes of what was accepted. -/
  flushed : ∀ e ∈ about "flushing pending literal on close" (h.stream.step op).log,
    h.stream.aim? op = some .close ∧
      ∃ t, (compress h.accepted).getLast? = some t ∧ e = .flushing t.span
  /-- An abort, when it is called, and whether that discards a run. -/
  aborted : about "token writer aborted" (h.stream.step op).log =
    (h.stream.aborting? op).toList.map fun r => .aborted r (endsWithLiteral h.accepted)
  /-- A writer that goes away while the reader is there, and what is lost with it. -/
  abandoned :
    if h.stream.ending? op = some .drop ∧ h.stream.reading ≠ .gone then
      ∃ discarded undelivered,
        about "token writer dropped without close" (h.stream.step op).log =
          [.abandoned h.accepted.length discarded undelivered] ∧
        ∃ b : Bool, (b = true ↔ discarded = true ∨ ∃ r, .aborted r true ∈ log) ∧
          (h.received ++ h.stream.channel.tokens).length + undelivered + b.toNat =
            (compress h.accepted).length
    else about "token writer dropped without close" (h.stream.step op).log = []
  /-- A reader that is told that the writer has gone. -/
  vanished : about "token writer went away without closing" (h.stream.step op).log =
    if (h.stream.step op).answer = .failed .writerDropped then
      [.vanished (h.step op).received.length] else []

variable {h : History} {r : Reader}

namespace Entry

theorem of_silent {op : Op} (hl : (h.stream.step op).log = []) (hd : h.stream.drawn op = [])
    (hclose : h.stream.ending? op ≠ some .close) (hdrop : h.stream.ending? op ≠ some .drop)
    (ha : h.stream.aborting? op = none)
    (hv : (h.stream.step op).answer ≠ .failed .writerDropped) : Entry h log op where
  delivered := by rw [hl, hd]; rfl
  closed := by rw [hl, if_neg hclose]; rfl
  flushed := by rw [hl]; nofun
  aborted := by rw [hl, ha]; rfl
  abandoned := by rw [hl, if_neg fun hc => hdrop hc.1]; rfl
  vanished := by rw [hl, if_neg hv]; rfl

theorem of_close {op : Op} {t : Turn} (ht : t.Closes h.accepted h.received log)
    (hs : h.stream.step op = h.stream.ofTurn t) (hd : h.stream.drawn op = [])
    (he : h.stream.aim? op = some .close) (ha : h.stream.aborting? op = none)
    (hv : t.answer ≠ .failed .writerDropped) : Entry h log op := by
  obtain ⟨fs, hfs, hl⟩ := ht.log
  have hlog : (h.stream.step op).log = t.log := by rw [hs]; rfl
  have hans : (h.stream.step op).answer = t.answer := by rw [hs]; rfl
  have hend : h.stream.ending? op = if t.answer = .ok then some .close else none := by
    rw [ending?, hans, he]
  -- The flush is an event of one kind, so all others are told by what the success logs.
  have hnone : ∀ m, m ≠ "flushing pending literal on close" → about m fs = [] := by
    intro m hm
    apply about_eq_nil
    intro e he
    obtain ⟨x, -, rfl⟩ := hfs e he
    exact hm.symm
  rw [hl] at hlog
  refine ⟨?_, ?_, ?_, ?_, ?_, ?_⟩
  · rw [hlog, hd, about_append, hnone _ (by decide)]
    split <;> simp [about, Event.message]
  · rw [hlog, hend, about_append, hnone _ (by decide)]
    split <;> simp [about, Event.message]
  · rw [hlog]
    intro e hm
    refine ⟨he, ?_⟩
    rw [about_append] at hm
    rcases List.mem_append.1 hm with hm | hm
    · exact hfs e (List.mem_filter.1 hm).1
    · split at hm <;> simp [about, Event.message] at hm
  · rw [hlog, ha, about_append, hnone _ (by decide)]
    split <;> simp [about, Event.message]
  · rw [if_neg (by rw [hend]; split <;> simp), hlog, about_append, hnone _ (by decide)]
    split <;> simp [about, Event.message]
  · rw [hans, if_neg hv, hlog, about_append, hnone _ (by decide)]
    split <;> simp [about, Event.message]

theorem of_abort {op : Op} {r : Reason}
    (hl : (h.stream.step op).log = [.aborted r (endsWithLiteral h.accepted)])
    (hd : h.stream.drawn op = []) (he : h.stream.aim? op = some (.abort r))
    (ha : h.stream.aborting? op = some r)
    (hv : (h.stream.step op).answer ≠ .failed .writerDropped) : Entry h log op := by
  have hclose : h.stream.ending? op ≠ some .close := by
    rw [ending?, he]
    split <;> simp
  have hdrop : h.stream.ending? op ≠ some .drop := by
    rw [ending?, he]
    split <;> simp
  refine ⟨?_, ?_, ?_, ?_, ?_, ?_⟩
  · rw [hl, hd]
    simp [about, Event.message]
  · rw [hl, if_neg hclose]
    simp [about, Event.message]
  · rw [hl]
    simp [about, Event.message]
  · rw [hl, ha]
    simp [about, Event.message]
  · rw [if_neg fun hc => hdrop hc.1, hl]
    simp [about, Event.message]
  · rw [hl, if_neg hv]
    simp [about, Event.message]

/-- The writer goes away, and what is lost is told to a reader that is there. -/
theorem of_drop {op : Op} (hO : h.stream.writing.Owes h.accepted h.received h.stream.channel)
    (hT : h.stream.writing.Tells h.accepted h.received h.stream.channel log)
    (hw : h.stream.writing = .idle w ∨
      ∃ call, call.writes = false ∧ h.stream.writing = .busy w call)
    (hr : h.stream.channel.listening = true ↔ h.stream.reading ≠ .gone)
    (hl : (h.stream.step op).log = w.dropped h.stream.channel) (hd : h.stream.drawn op = [])
    (he : h.stream.ending? op = some .drop) (ha : h.stream.aborting? op = none)
    (hv : (h.stream.step op).answer ≠ .failed .writerDropped) : Entry h log op := by
  obtain ⟨hn, b, hb, hsum⟩ := hT.balance hO hw
  rw [Writer.dropped, hn] at hl
  refine ⟨?_, ?_, ?_, ?_, ?_, ?_⟩
  · rw [hl, hd]
    split <;> simp [about, Event.message]
  · rw [hl, he]
    split <;> simp [about, Event.message]
  · rw [hl]
    split <;> simp [about, Event.message]
  · rw [hl, ha]
    split <;> simp [about, Event.message]
  · rw [hl, he]
    by_cases hg : h.stream.reading ≠ .gone
    · rw [if_pos ⟨rfl, hg⟩, if_pos (hr.2 hg)]
      refine ⟨w.merger.discard.1, w.outbox.length, ?_, b, hb, ?_⟩
      · simp [about, Event.message]
      · rw [List.length_append, hsum]
    · rw [if_neg fun hc => hg hc.2, if_neg fun hc => hg (hr.1 hc)]
      rfl
  · rw [hl, if_neg hv]
    split <;> simp [about, Event.message]

theorem of_read {op : Op} {n : Nat} (hv : n = (h.received ++ h.stream.drawn op).length)
    (hl : (h.stream.step op).log = (h.stream.drawn op).map delivery ++
      if (h.stream.step op).answer = .failed .writerDropped then [.vanished n] else [])
    (he : h.stream.aim? op = none) (ha : h.stream.aborting? op = none) : Entry h log op := by
  have hend : h.stream.ending? op = none := by
    rw [ending?, he, ite_self]
  refine ⟨?_, ?_, ?_, ?_, ?_, ?_⟩
  · rw [hl, about_append, about_delivered]
    split <;> simp [about, Event.message, delivery]
  · rw [hl, hend, about_append, about_deliveries (by decide)]
    split <;> simp [about, Event.message]
  · rw [hl, about_append, about_deliveries (by decide)]
    split <;> simp [about, Event.message]
  · rw [hl, ha, about_append, about_deliveries (by decide)]
    split <;> simp [about, Event.message]
  · rw [if_neg (by simp [hend]), hl, about_append, about_deliveries (by decide)]
    split <;> simp [about, Event.message]
  · rw [hl, about_append, about_deliveries (by decide), hv]
    split <;> simp [about, Event.message, History.step]

end Entry

/-- What the log has told before an operation, and what it tells of it. -/
structure Told (h : History) (log : List Event) (op : Op) : Prop where
  entry : Entry h log op
  tells : (h.step op).stream.writing.Tells (h.step op).accepted (h.step op).received
    (h.step op).stream.channel (log ++ (h.stream.step op).log)

namespace Told

theorem of_refuses {op : Op} (hf : h.stream.refuses op = true)
    (hT : h.stream.writing.Tells h.accepted h.received h.stream.channel log) : Told h log op := by
  have hsilent : (h.stream.step op).log = [] ∧ h.stream.drawn op = [] ∧
      h.stream.ending? op = none ∧ h.stream.aborting? op = none ∧
      (h.stream.step op).answer ≠ .failed .writerDropped := by
    cases op <;> cases hw : h.stream.writing <;> cases hg : h.stream.reading <;>
      simp_all [refuses, Stream.step, withWriter, withReader, drawn, ending?, aborting?,
        Stream.cancelWriter, stay]
  obtain ⟨hl, hd, he, ha, hv⟩ := hsilent
  refine ⟨.of_silent hl hd (by simp [he]) (by simp [he]) ha hv, ?_⟩
  rw [step_of_refuses op hf, hl, List.append_nil]
  exact hT

/-- A turn of the writer, which takes nothing out of the channel. -/
theorem of_turn {op : Op} {t : Turn} (hs : h.stream.step op = h.stream.ofTurn t)
    (hd : h.stream.drawn op = []) (he : Entry h log op)
    (ht : t.writing.Tells (h.step op).accepted h.received t.channel (log ++ t.log)) :
    Told h log op := by
  refine ⟨he, ?_⟩
  have hr : (h.step op).received = h.received := by
    rw [History.step, hd, List.append_nil]
  have hstream : (h.step op).stream = (h.stream.ofTurn t).stream := by
    rw [History.step, hs]
  rw [hr, hstream, hs]
  exact ht

theorem of_write {op : Op} {t : Turn} (hs : h.stream.step op = h.stream.ofTurn t)
    (hd : h.stream.drawn op = []) (he : h.stream.ending? op = none)
    (ha : h.stream.aborting? op = none) (hv : t.answer ≠ .failed .writerDropped)
    (ht : t.writing.Tells (h.step op).accepted h.received t.channel log ∧ t.log = []) :
    Told h log op := by
  obtain ⟨ht, hl⟩ := ht
  refine of_turn hs hd (.of_silent ?_ hd (by simp [he]) (by simp [he]) ha ?_) ?_
  · rw [hs]
    exact hl
  · rw [hs]
    exact hv
  · rw [hl, List.append_nil]
    exact ht

theorem startWrite (hw : h.stream.writing = .idle w)
    (hT : h.stream.writing.Tells h.accepted h.received h.stream.channel log) (t : Token) :
    Told h log (.startWrite t) := by
  rw [hw] at hT
  refine of_write (t := w.write t h.stream.channel) (by simp [Stream.step, withWriter, hw])
    (by simp [drawn]) (by simp [ending?, aim?]) (by simp [aborting?])
    (w.write_continues t _).answer_ne (Writer.tells_write hT t)

theorem pollWriter {call : Call} (hs : h.Sound) (hw : h.stream.writing = .busy w call)
    (hT : h.stream.writing.Tells h.accepted h.received h.stream.channel log) :
    Told h log .pollWriter := by
  have hO := hs.owes hw nofun
  rw [hw] at hT
  have hstep : h.stream.step .pollWriter = h.stream.ofTurn (w.poll h.stream.channel call) := by
    simp [Stream.step, hw]
  cases call with
  | write t =>
    exact of_write hstep (by simp [drawn]) (by simp [ending?, aim?, hw]) (by simp [aborting?])
      (w.write_continues t _).answer_ne (Writer.tells_write (A := h.accepted) hT t)
  | settle =>
    have ht := hs.tracks
    rw [hw] at ht
    obtain ⟨past, t, -⟩ := ht
    exact of_write hstep (by simp [drawn]) (by simp [ending?, aim?, hw]) (by simp [aborting?])
      (w.settle_continues _ t).answer_ne (Writer.tells_settle (A := h.accepted) hT)
  | close =>
    have hc := Writer.closes_close hO hT
    have hA : (h.step .pollWriter).accepted = h.accepted := by rw [step_pollClose hw]; rfl
    refine of_turn hstep (by simp [drawn]) ?_ (hA ▸ hc.tells)
    refine .of_close hc hstep (by simp [drawn]) (by simp [aim?, hw]) (by simp [aborting?]) ?_
    exact (Writer.concludes_close hO).answer_ne
  | abort r =>
    obtain ⟨ht, hl⟩ := Writer.tells_abortOn hT
    have hA : (h.step .pollWriter).accepted = h.accepted := by rw [step_pollAbort hw]; rfl
    have haim : h.stream.aim? .pollWriter = some (.abort r) := by simp [aim?, hw]
    refine of_turn hstep (by simp [drawn]) ?_ ?_
    · apply Entry.of_silent (by rw [hstep]; exact hl) (by simp [drawn])
      · rw [ending?, haim]
        split <;> simp
      · rw [ending?, haim]
        split <;> simp
      · simp [aborting?]
      · rw [hstep]
        exact (Writer.concludes_abortOn hO).answer_ne
    · rw [hA, Writer.poll, hl, List.append_nil]
      exact ht

theorem close (hs : h.Sound) (hw : h.stream.writing = .idle w)
    (hT : h.stream.writing.Tells h.accepted h.received h.stream.channel log) :
    Told h log .close := by
  have hO := (hs.owes hw nofun).closing
  rw [hw] at hT
  have hc := Writer.closes_close hO hT.closing
  have hstep : h.stream.step .close = h.stream.ofTurn (w.close h.stream.channel) := by
    simp [Stream.step, withWriter, hw]
  have hA : (h.step .close).accepted = h.accepted := by rw [step_close hw]; rfl
  refine of_turn hstep (by simp [drawn]) ?_ (hA ▸ hc.tells)
  refine .of_close hc hstep (by simp [drawn]) (by simp [aim?, hw]) (by simp [aborting?]) ?_
  exact (Writer.concludes_close hO).answer_ne

theorem abort (hs : h.Sound) (hw : h.stream.writing = .idle w)
    (hT : h.stream.writing.Tells h.accepted h.received h.stream.channel log) (r : Reason) :
    Told h log (.abort r) := by
  have hO := hs.owes hw nofun
  rw [hw] at hT
  obtain ⟨ht, hl⟩ := Writer.tells_abort hO hT r
  have hstep : h.stream.step (.abort r) = h.stream.ofTurn (w.abort r h.stream.channel) := by
    simp [Stream.step, withWriter, hw]
  have hA : (h.step (.abort r)).accepted = h.accepted := by rw [step_abort hw]; rfl
  refine of_turn hstep (by simp [drawn]) ?_ ?_
  · refine .of_abort (by rw [hstep]; exact hl) (by simp [drawn]) (by simp [aim?, hw])
      (by simp [aborting?, hw]) ?_
    rw [hstep]
    exact (Writer.concludes_abort hO r).answer_ne
  · rw [hA, hl]
    exact ht

/-- The writer goes away, and no call has completed that ends the writing. -/
theorem released {op : Op} (hs : h.Sound)
    (hT : h.stream.writing.Tells h.accepted h.received h.stream.channel log)
    (hw : h.stream.writing = .idle w ∨
      ∃ call, call.writes = false ∧ h.stream.writing = .busy w call)
    (hstep : h.stream.step op =
      ⟨{ h.stream with writing := .gone }, .ok, w.dropped h.stream.channel⟩)
    (hd : h.stream.drawn op = []) (he : h.stream.aim? op = some .drop)
    (ha : h.stream.aborting? op = none) : Told h log op := by
  have hg : h.stream.writing ≠ .gone := by
    rcases hw with hw | ⟨call, -, hw⟩ <;> simp [hw]
  obtain ⟨hO, -, -, hr⟩ := hs.phase.of_writing hg
  refine ⟨.of_drop hO hT hw hr (by rw [hstep]) hd (by simp [ending?, hstep, he]) ha
    (by simp [hstep]), ?_⟩
  rw [History.step, hstep]
  rw [Writing.Tells, about_append, Writer.dropped]
  split <;> simpa [about, Event.message] using hT.length_le

theorem dropWriter (hs : h.Sound) (hw : h.stream.writing = .idle w)
    (hT : h.stream.writing.Tells h.accepted h.received h.stream.channel log) :
    Told h log .dropWriter :=
  released hs hT (.inl hw) (by simp [Stream.step, withWriter, hw]) (by simp [drawn])
    (by simp [aim?, hw]) (by simp [aborting?])

theorem cancelWriter {call : Call} (hs : h.Sound) (hw : h.stream.writing = .busy w call)
    (hT : h.stream.writing.Tells h.accepted h.received h.stream.channel log) :
    Told h log .cancelWriter := by
  by_cases hc : call.writes = true
  · -- A write that is cancelled gives its writer back, and nothing is said of it.
    have hstep : h.stream.step .cancelWriter = ⟨{ h.stream with writing := .idle w }, .ok, []⟩ := by
      cases call <;> simp_all [Stream.step, Stream.cancelWriter, Writing.cancel, Call.writes]
    have he : h.stream.ending? .cancelWriter = none := by
      cases call <;> simp_all [ending?, aim?, Call.writes]
    refine ⟨.of_silent (by rw [hstep]) (by simp [drawn]) (by simp [he]) (by simp [he])
      (by simp [aborting?]) (by simp [hstep]), ?_⟩
    rw [step_cancelWriter hw, if_pos hc, hstep, List.append_nil]
    rw [hw] at hT
    exact hT.cancelled hc
  · have hc : call.writes = false := by simpa using hc
    refine released hs hT (.inr ⟨call, hc, hw⟩) ?_ (by simp [drawn]) ?_ (by simp [aborting?])
    · cases call <;> simp_all [Stream.step, Stream.cancelWriter, Writing.cancel, Call.writes]
    · cases call <;> simp_all [aim?, Call.writes]

theorem write (hw : h.stream.writing = .idle w)
    (hT : h.stream.writing.Tells h.accepted h.received h.stream.channel log) (t : Token) :
    Told h log (.write t) := by
  have hT₁ := (startWrite hw hT t).tells
  rw [hw] at hT
  have hnil : (w.write t h.stream.channel).log = [] := (Writer.tells_write (B := []) hT t).2
  have hl₁ : (h.stream.step (.startWrite t)).log = [] := by
    rw [Stream.step, withWriter, hw]
    exact hnil
  have hl : (h.stream.step (.write t)).log = [] := by
    rw [Stream.step, withWriter, hw]
    exact hnil
  have ha : (h.stream.step (.write t)).answer = (w.write t h.stream.channel).answer := by
    rw [Stream.step, withWriter, hw]
    rfl
  rw [hl₁, List.append_nil] at hT₁
  refine ⟨.of_silent hl (by simp [drawn]) (by simp [ending?, aim?]) (by simp [ending?, aim?])
    (by simp [aborting?]) ?_, ?_⟩
  · rw [ha]
    exact (w.write_continues t _).answer_ne
  · -- A write that has suspended is cancelled.
    rw [step_write hw, hl, List.append_nil]
    rcases w.write_writing t h.stream.channel with ⟨w', -, hi⟩ | ⟨w', call, hc, hi⟩
    · have hb : (h.step (.startWrite t)).stream.writing = .idle w' := by
        rwa [step_startWrite hw]
      rwa [step_of_refuses .cancelWriter (by simp [refuses, hb])]
    · have hb : (h.step (.startWrite t)).stream.writing = .busy w' call := by
        rwa [step_startWrite hw]
      rw [hb] at hT₁
      rw [step_cancelWriter hb, if_pos hc]
      exact hT₁.cancelled hc

theorem of_read {op : Op} {n : Nat}
    (hT : h.stream.writing.Tells h.accepted h.received h.stream.channel log)
    (hn : n = (h.received ++ h.stream.drawn op).length)
    (hl : (h.stream.step op).log = (h.stream.drawn op).map delivery ++
      if (h.stream.step op).answer = .failed .writerDropped then [.vanished n] else [])
    (he : h.stream.aim? op = none) (ha : h.stream.aborting? op = none)
    (hw : (h.step op).stream.writing = h.stream.writing)
    (hA : (h.step op).accepted = h.accepted)
    (hc : h.stream.channel.tokens = h.stream.drawn op ++ (h.step op).stream.channel.tokens) :
    Told h log op := by
  refine ⟨.of_read hn hl he ha, ?_⟩
  rw [hw, hA]
  refine hT.read hc ?_ ?_ <;> rw [hl, about_append, about_deliveries (by decide)] <;>
    split <;> simp [about, Event.message]

theorem next (hs : h.Sound) (hr : h.stream.reading = .idle r)
    (hT : h.stream.writing.Tells h.accepted h.received h.stream.channel log) :
    Told h log .next := by
  have hc := hs.counts
  rw [hr] at hc
  have hd : h.stream.drawn .next = (r.poll h.stream.alone h.stream.channel).1.taken := by
    simp [drawn, hr]
  have hstep : h.stream.step .next = h.stream.ofItem (r.poll h.stream.alone h.stream.channel) := by
    simp [Stream.step, withReader, hr]
  have hv : (r.poll h.stream.alone h.stream.channel).1.verdict = [.failed .writerDropped] ↔
      (h.stream.step .next).answer = .failed .writerDropped := by
    rw [hstep]
    rcases r.poll h.stream.alone h.stream.channel with ⟨i, r', c, es⟩
    cases i <;> simp [ofItem, Item.verdict]
  refine of_read hT (n := r.delivered + (h.stream.drawn .next).length) ?_ ?_ (by simp [aim?])
    (by simp [aborting?]) ?_ ?_ ?_
  · rw [List.length_append, hc]
  · simp only [hd, ← hv]
    rw [← r.log_poll, hstep]
    rfl
  · rw [step_next hr]
  · rw [step_next hr]
    rfl
  · rw [hd, step_next hr]
    exact (r.poll_gave _ _).tokens

theorem gathered {op : Op} {taken : List Token} (hn : r.delivered = h.received.length)
    (hT : h.stream.writing.Tells h.accepted h.received h.stream.channel log)
    (hd : h.stream.drawn op = r.drawn h.stream.alone h.stream.channel)
    (hs : h.stream.step op = h.stream.collectWith r taken) (hh : h.step op = h.gathered r taken)
    (he : h.stream.aim? op = none) (ha : h.stream.aborting? op = none) : Told h log op := by
  have hv : collectVerdict (r.collect h.stream.alone taken h.stream.channel).1 =
      [.failed .writerDropped] ↔ (h.stream.step op).answer = .failed .writerDropped := by
    rw [hs, collectWith]
    rcases r.collect h.stream.alone taken h.stream.channel with ⟨_ | f | ts, g, c, es⟩ <;>
      simp [collectVerdict]
  refine of_read hT (n := r.delivered + (h.stream.drawn op).length) ?_ ?_ he ha ?_ ?_ ?_
  · rw [List.length_append, hn]
  · simp only [hd, ← hv]
    rw [← r.log_collect, hs]
    rfl
  · rw [hh, History.gathered]
  · rw [hh]
    rfl
  · rw [hd, hh]
    exact (r.collect_gave _ taken _).tokens

theorem deafened {op : Op} (hT : h.stream.writing.Tells h.accepted h.received h.stream.channel log)
    (hd : h.stream.drawn op = []) (hs : h.stream.step op = h.stream.dropReader)
    (hh : h.step op = h.deafened) (he : h.stream.aim? op = none)
    (ha : h.stream.aborting? op = none) : Told h log op := by
  have hl : (h.stream.step op).log = [] := by rw [hs]; rfl
  have hend : h.stream.ending? op = none := by rw [ending?, he, ite_self]
  refine ⟨.of_silent hl hd (by simp [hend]) (by simp [hend]) ha (by rw [hs]; nofun), ?_⟩
  rw [hl, hh]
  have hmute : h.stream.channel.tokens = [] ++ h.stream.channel.mute.tokens := rfl
  have hread : h.stream.writing.Tells h.accepted (h.received ++ []) h.stream.channel.mute
      (log ++ []) := hT.read hmute rfl rfl
  rwa [List.append_nil] at hread

theorem of_sound (hs : h.Sound)
    (hT : h.stream.writing.Tells h.accepted h.received h.stream.channel log) (op : Op) :
    Told h log op := by
  have hc := hs.counts
  by_cases hf : h.stream.refuses op = true
  · exact of_refuses hf hT
  · -- An operation that is not refused finds the half that it needs.
    unfold refuses at hf
    split at hf
    · next t w hw => exact write hw hT t
    · next t w hw => exact startWrite hw hT t
    · next w hw => exact close hs hw hT
    · next r w hw => exact abort hs hw hT r
    · next w hw => exact dropWriter hs hw hT
    · next w call hw => exact pollWriter hs hw hT
    · next w call hw => exact cancelWriter hs hw hT
    · next r hr => exact next hs hr hT
    · next r hr =>
      rw [hr] at hc
      exact gathered hc hT (by simp [drawn, hr]) (by simp [Stream.step, withReader, hr])
        (step_collect hr) (by simp [aim?]) (by simp [aborting?])
    · next r hr =>
      exact deafened hT (by simp [drawn]) (by simp [Stream.step, withReader, hr])
        (step_dropReader hr) (by simp [aim?]) (by simp [aborting?])
    · next r taken hr =>
      rw [hr] at hc
      exact gathered hc.1 hT (by simp [drawn, hr]) (by simp [Stream.step, hr])
        (step_pollReader hr) (by simp [aim?]) (by simp [aborting?])
    · next r taken hr =>
      exact deafened hT (by simp [drawn]) (by simp [Stream.step, hr])
        (step_cancelReader hr) (by simp [aim?]) (by simp [aborting?])
    · exact absurd rfl hf

end Told

/-- What a log has told that began with the stream. -/
structure Logged (h : History) (log : List Event) : Prop where
  sound : h.Sound
  delivered : about "token delivered" log = h.received.map delivery
  tells : h.stream.writing.Tells h.accepted h.received h.stream.channel log

namespace Logged

theorem step (hl : h.Logged log) (op : Op) :
    (h.step op).Logged (log ++ (h.stream.step op).log) := by
  have ht := Told.of_sound hl.sound hl.tells op
  refine ⟨hl.sound.step op, ?_, ht.tells⟩
  have hd : (h.step op).received = h.received ++ h.stream.drawn op := rfl
  rw [about_append, hl.delivered, ht.entry.delivered, hd, List.map_append]
  rfl

theorem run (hl : h.Logged log) (ops : List Op) :
    (h.run ops).Logged (log ++ h.stream.logged ops) := by
  induction ops generalizing h log with
  | nil =>
    rw [logged, Stream.run, List.flatMap_nil, List.append_nil]
    exact hl
  | cons op ops ih =>
    have h' := ih (hl.step op)
    rw [List.append_assoc] at h'
    exact h'

theorem delivered_eq (hl : h.Logged log) {n : Nat} (hn : h.stream.delivered = some n) :
    n = (about "token delivered" log).length := by
  have hc := hl.sound.counts
  rw [hl.delivered, List.length_map]
  rw [Stream.delivered, reader?] at hn
  split at hn
  · next r hr =>
    rw [hr] at hc
    exact (Option.some.inj hn).symm.trans hc
  · simp at hn

theorem emitted_eq (hl : h.Logged log) (hw : h.stream.writing.writer? = some w) :
    w.emitted = (h.received ++ h.stream.channel.tokens).length := by
  have ht := hl.tells
  rw [List.length_append]
  rcases hv : h.stream.writing with v | ⟨v, t | _ | _ | r⟩ | _ <;> rw [hv] at ht hw <;> cases hw <;>
    exact ht.1

end Logged

/-- The log tells what was delivered, and of every operation what it did: how a close succeeded, an
abort began, the writer or the reader found the other gone, and how many tokens that has cost. -/
theorem chronicle {n : UInt64} {s : Stream} (hs : withCapacity n = .ok s) (ops : List Op) :
    let h := ({ stream := s } : History).run ops
    let log := s.logged ops
    about "token delivered" log = h.received.map (fun t => .delivered t.kind t.span) ∧
    (∀ n ∈ h.stream.delivered, n = (about "token delivered" log).length) ∧
    (∀ w ∈ h.stream.writing.writer?,
      w.emitted = (h.received ++ h.stream.channel.tokens).length) ∧
    (about "flushing pending literal on close" log).length ≤ 1 ∧
    ∀ op, h.Entry log op := by
  intro h log
  have hstart : History.Logged { stream := s } [] := by
    have hs' := sound_start hs
    rw [eq_of_withCapacity hs] at hs' ⊢
    exact ⟨hs', rfl, rfl, rfl, rfl⟩
  have hl : h.Logged log := hstart.run ops
  refine ⟨hl.delivered, fun n hn => hl.delivered_eq hn, fun w hw => hl.emitted_eq hw,
    hl.tells.length_le, ?_⟩
  intro op
  exact (Told.of_sound hl.sound hl.tells op).entry

/-- An abort that waits for a place is cancelled: of three tokens one was sent, one was still to be
sent, and the run was discarded when the abort was called. -/
theorem chronicle_cancelled :
    let a : Token := ⟨.interpolation, "a", ⟨0, 1⟩⟩
    let b : Token := ⟨.literal, "b", ⟨1, 2⟩⟩
    let c : Token := ⟨.literal, "c", ⟨5, 6⟩⟩
    let r : Reason := ⟨"lost", []⟩
    let s : Stream := { channel := { capacity := 1 } }
    let ops : List Op := [.write a, .write b, .write c, .abort r]
    let h := ({ stream := s } : History).run ops
    withCapacity 1 = .ok s ∧ h.accepted = [a, b, c] ∧ s.logged ops = [.aborted r true] ∧
      (h.stream.step .cancelWriter).log = [.abandoned 3 false 1] ∧
      ∃ b : Bool, (b = true ↔ false = true ∨ ∃ r, .aborted r true ∈ s.logged ops) ∧
        (h.received ++ h.stream.channel.tokens).length + 1 + b.toNat =
          (compress h.accepted).length := by
  intro a b c r s ops h
  have hs : withCapacity 1 = .ok s := rfl
  have hd : h.stream.ending? .cancelWriter = some .drop ∧ h.stream.reading ≠ .gone := by
    decide +kernel
  have hl : (h.stream.step .cancelWriter).log = [.abandoned 3 false 1] := by decide +kernel
  obtain ⟨-, -, -, -, he⟩ := chronicle hs ops
  have ha := (he .cancelWriter).abandoned
  rw [if_pos hd] at ha
  obtain ⟨discarded, undelivered, hm, b, hb, hsum⟩ := ha
  have he : [Event.abandoned 3 false 1] =
      [.abandoned h.accepted.length discarded undelivered] := by
    rw [← hm, show (History.run { stream := s } ops).stream = h.stream from rfl, hl]
    rfl
  obtain ⟨-, rfl, rfl⟩ := Event.abandoned.inj (List.singleton_inj.1 he)
  exact ⟨hs, by decide +kernel, by decide +kernel, hl, b, hb, hsum⟩

end History

end Stream

end Coalesce
