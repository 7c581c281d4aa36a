import Coalesce.Proofs.Stream.Backpressure

namespace Coalesce

def endsWithLiteral (ts : List Token) : Bool := ts.getLast?.any Token.isLiteral

theorem Merger.hasPending_after_eq (ts : List Token) :
    (Merger.after ts).hasPending = endsWithLiteral ts := by
  rw [Bool.eq_iff_iff, hasPending_after, endsWithLiteral, Option.any_eq_true]

/-- Of all that comes of `ts`, only the run that they leave open is not final. -/
theorem length_compress_eq (ts : List Token) :
    (compress ts).length = (final ts).length + (endsWithLiteral ts).toNat := by
  rw [compress_eq_final, List.length_append, Merger.length_held, ← Merger.hasPending_after_eq,
    Merger.hasPending]
  cases (Merger.after ts).pending <;> rfl

theorem Merger.length_held_le (m : Merger) : m.held.length ≤ 1 := by
  rw [Merger.length_held]
  cases m.pending <;> simp

namespace Stream

/-- The events of a log that carry a message. -/
def about (message : String) (log : List Event) : List Event := log.filter (·.message = message)

theorem about_append (message : String) (log es : List Event) :
    about message (log ++ es) = about message log ++ about message es := List.filter_append ..

theorem about_eq_self {message : String} {es : List Event} (h : ∀ e ∈ es, e.message = message) :
    about message es = es :=
  List.filter_eq_self.2 fun e he => decide_eq_true (h e he)

theorem about_eq_nil {message : String} {es : List Event} (h : ∀ e ∈ es, e.message ≠ message) :
    about message es = [] :=
  List.filter_eq_nil_iff.2 fun e he hm => h e he (of_decide_eq_true hm)

/-- What is logged when a token is taken out of the channel. -/
def delivery (t : Token) : Event := .delivered t.kind t.span

theorem about_delivered (ts : List Token) :
    about "token delivered" (ts.map delivery) = ts.map delivery := by
  apply about_eq_self
  intro e he
  obtain ⟨t, -, rfl⟩ := List.mem_map.1 he
  rfl

theorem about_deliveries {message : String} (hm : message ≠ "token delivered") (ts : List Token) :
    about message (ts.map delivery) = [] := by
  apply about_eq_nil
  intro e he
  obtain ⟨t, -, rfl⟩ := List.mem_map.1 he
  exact hm.symm

namespace Reader

theorem log_poll (r : Reader) (alone : Bool) (c : Channel) :
    (r.poll alone c).2.2.2 = (r.poll alone c).1.taken.map delivery ++
      if (r.poll alone c).1.verdict = [.failed .writerDropped]
        then [.vanished (r.delivered + (r.poll alone c).1.taken.length)] else [] := by
  rcases r.poll_cases alone c with ⟨-, he⟩ | ⟨-, t, fs, -, he⟩ | ⟨-, fs, -, he⟩ |
      ⟨-, e, fs, -, he⟩ | ⟨-, -, -, he⟩ | ⟨-, -, -, he⟩ <;>
    rw [he] <;> simp [Item.taken, Item.verdict, delivery]

theorem log_collect (r : Reader) (alone : Bool) (taken : List Token) (c : Channel) :
    (r.collect alone taken c).2.2.2 = (r.drawn alone c).map delivery ++
      if collectVerdict (r.collect alone taken c).1 = [.failed .writerDropped]
        then [.vanished (r.delivered + (r.drawn alone c).length)] else [] := by
  fun_induction collect r alone taken c with
  | case1 r taken c t r' c' es hp out s c'' es' hc ih =>
    -- The first token is logged before what the rest of the collection logs.
    have hl := r.log_poll alone c
    have hd : r.drawn alone c = t :: r'.drawn alone c' := by rw [drawn, hp]
    have hr : r'.delivered = r.delivered + 1 := by rw [poll_counts hp]; rfl
    rw [hp] at hl
    rw [hc, hr] at ih
    simp only at hl ih
    rw [hl, ih, hd]
    simp [Item.taken, Item.verdict, Nat.add_assoc, Nat.add_comm 1]
  | case2 r taken c r' c' es hp =>
    have hl := r.log_poll alone c
    have hd : r.drawn alone c = [] := by rw [drawn, hp]
    rw [hp] at hl
    simpa [hd, Item.taken, Item.verdict, collectVerdict] using hl
  | case3 r taken c f r' c' es hp =>
    have hl := r.log_poll alone c
    have hd : r.drawn alone c = [] := by rw [drawn, hp]
    rw [hp] at hl
    simpa [hd, Item.taken, Item.verdict, collectVerdict] using hl
  | case4 r taken c r' c' es hp =>
    have hl := r.log_poll alone c
    have hd : r.drawn alone c = [] := by rw [drawn, hp]
    rw [hp] at hl
    simpa [hd, Item.taken, Item.verdict, collectVerdict] using hl

end Reader

/-- The writer has counted the tokens that it sent, of which `R` were received. -/
def Writer.Counts (w : Writer) (R : List Token) (c : Channel) : Prop :=
  w.emitted = R.length + c.tokens.length

/-- What the log tells of a writer that has accepted `A`. -/
def Writing.Tells (A R : List Token) (c : Channel) (log : List Event) : Writing → Prop
  | idle w | busy w (.write _) | busy w .settle =>
    w.Counts R c ∧ about "flushing pending literal on close" log = [] ∧
      about "token writer aborted" log = []
  | busy w .close =>
    w.Counts R c ∧
      (about "flushing pending literal on close" log).length + w.merger.held.length ≤ 1 ∧
      about "token writer aborted" log = []
  | busy w (.abort r) =>
    w.Counts R c ∧ w.merger = {} ∧ about "flushing pending literal on close" log = [] ∧
      about "token writer aborted" log = [.aborted r (endsWithLiteral A)]
  | gone => (about "flushing pending literal on close" log).length ≤ 1

theorem Writer.Moved.counts {w w' : Writer} {c c' : Channel} {R ts : List Token}
    (hm : Moved w c ts w' c') (h : w.Counts R c) : w'.Counts R c' := by
  rw [Writer.Counts, hm.emitted, hm.channel, Channel.tokens_extend, List.length_append, h,
    Nat.add_assoc]

variable {A B R ts : List Token} {w w' : Writer} {c c' : Channel} {log es : List Event}

theorem Writing.Tells.moved {call : Call} (h : (busy w call).Tells A R c log)
    (hm : w.Moved c ts w' c') : (busy w' call).Tells A R c' log := by
  cases call with
  | write t => exact ⟨hm.counts h.1, h.2⟩
  | settle => exact ⟨hm.counts h.1, h.2⟩
  | close => exact ⟨hm.counts h.1, hm.merger ▸ h.2⟩
  | abort r => exact ⟨hm.counts h.1, hm.merger ▸ h.2⟩

theorem Writing.Tells.read {writing : Writing} (h : writing.Tells A R c log)
    (hc : c.tokens = ts ++ c'.tokens)
    (hf : about "flushing pending literal on close" es = [])
    (ha : about "token writer aborted" es = []) : writing.Tells A (R ++ ts) c' (log ++ es) := by
  have hcount : ∀ {w : Writer}, w.Counts R c → w.Counts (R ++ ts) c' := by
    intro w hw
    rw [Writer.Counts, hw, hc]
    simp only [List.length_append, Nat.add_assoc]
  rcases writing with w | ⟨w, t | _ | _ | r⟩ | _ <;>
    simp only [Tells, about_append, hf, ha, List.append_nil] at h ⊢ <;>
    first | exact h | exact ⟨hcount h.1, h.2⟩

theorem Writing.Tells.cancelled {call : Call} (hc : call.writes = true)
    (h : (busy w call).Tells A R c log) : (idle w).Tells A R c log := by
  cases call <;> first | exact h | contradiction

theorem Writing.Tells.length_le {writing : Writing} (h : writing.Tells A R c log) :
    (about "flushing pending literal on close" log).length ≤ 1 := by
  rcases writing with w | ⟨w, t | _ | _ | r⟩ | _
  · simp [h.2.1]
  · simp [h.2.1]
  · simp [h.2.1]
  · exact Nat.le_of_add_right_le h.2.1
  · simp [h.2.2.1]
  · exact h

theorem Writing.Tells.closing (h : (idle w).Tells A R c log) : (busy w .close).Tells A R c log :=
  ⟨h.1, by simpa [h.2.1] using w.merger.length_held_le, h.2.2⟩

namespace Writer

theorem tells_settle (h : (Writing.idle w).Tells A R c log) :
    (w.settle c).writing.Tells B R (w.settle c).channel log ∧ (w.settle c).log = [] := by
  have hb : (Writing.busy w .settle).Tells A R c log := h
  rcases w.settle_cases c with ⟨ts, w', c', hm, -, he⟩ | ⟨ts, w', c', hm, -, he⟩ | ⟨-, he⟩ <;>
    rw [he]
  · exact ⟨hb.moved hm, rfl⟩
  · exact ⟨hb.moved hm, rfl⟩
  · exact ⟨h, rfl⟩

theorem tells_write (h : (Writing.idle w).Tells A R c log) (t : Token) :
    (w.write t c).writing.Tells B R (w.write t c).channel log ∧ (w.write t c).log = [] := by
  have hb : (Writing.busy w (.write t)).Tells A R c log := h
  rcases w.write_cases t c with
    ⟨ts, w', c', hm, -, -, he⟩ | ⟨ts, w', c', hm, -, -, he⟩ | ⟨-, -, he⟩ <;> rw [he]
  · have h' : (Writing.idle (w'.accept t)).Tells A R c' log := by
      have hb' := hb.moved hm
      exact hb'
    exact tells_settle h'
  · exact ⟨hb.moved hm, rfl⟩
  · exact ⟨h, rfl⟩

theorem log_flush (w : Writer) :
    w.flush.2 = w.merger.held.map fun t => .flushing t.span := by
  unfold flush Merger.held Merger.finish
  cases w.merger.pending <;> rfl

@[simp] theorem emitted_flush (w : Writer) : w.flush.1.emitted = w.emitted := by
  unfold flush
  split <;> rfl

end Writer

/-- What the log tells of a poll of a close: of a flush, if there was one, and of the success. -/
structure Turn.Closes (A R : List Token) (log : List Event) (t : Turn) : Prop where
  tells : t.writing.Tells A R t.channel (log ++ t.log)
  log : ∃ fs, (∀ e ∈ fs, ∃ x, (compress A).getLast? = some x ∧ e = .flushing x.span) ∧
    t.log = fs ++ if t.answer = .ok then [.closed A.length (compress A).length] else []

theorem Turn.Closes.after {t : Turn} (h : t.Closes A R (log ++ es))
    (hes : ∀ e ∈ es, ∃ x, (compress A).getLast? = some x ∧ e = .flushing x.span) :
    (t.after es).Closes A R log := by
  obtain ⟨ht, fs, hfs, hl⟩ := h
  refine ⟨?_, es ++ fs, ?_, ?_⟩
  · rw [List.append_assoc] at ht
    exact ht
  · intro e he
    rcases List.mem_append.1 he with he | he
    · exact hes e he
    · exact hfs e he
  · rw [Turn.after, hl, List.append_assoc]
    rfl

namespace Writer

/-- Behind everything else goes the mark, and what was sent then is all there is. -/
theorem closes_mark (hO : (Writing.busy w .close).Owes A R c)
    (hT : (Writing.busy w .close).Tells A R c log) (ho : w.outbox = {}) (hm : w.merger = {}) :
    (w.mark .closed .close [.closed w.written w.emitted] c).Closes A R log := by
  obtain ⟨hn, X, hb, hX⟩ := hO
  rw [hm, Merger.held_empty, List.append_nil] at hX
  have he : w.emitted = (compress A).length := by
    rw [hT.1, ← hX, ← hb.line_of_empty ho, List.length_append]
  rcases w.mark_cases .closed .close [.closed w.written w.emitted] c with
    ⟨-, -, hk⟩ | ⟨-, -, hk⟩ | ⟨-, hk⟩ <;> rw [hk]
  · refine ⟨?_, [], nofun, ?_⟩
    · have hle := hT.length_le
      simpa [Writing.Tells, about_append, about, Event.message] using hle
    · simp [Turn.answer, hn, he]
  · refine ⟨?_, [], nofun, rfl⟩
    rw [Turn.suspended, List.append_nil]
    exact hT
  · refine ⟨?_, [], nofun, rfl⟩
    rw [Turn.refused, List.append_nil]
    exact hT.length_le

theorem closes_drained {next : Writer → Channel → Turn}
    (hT : (Writing.busy w .close).Tells A R c log)
    (hn : ∀ {ts w' c'}, w.Moved c ts w' c' → w'.outbox = {} → (next w' c').Closes A R log) :
    (w.drained c .close (fun _ => .gone) next).Closes A R log := by
  rcases w.drained_cases c .close (fun _ => .gone) next with
    ⟨ts, w', c', hm, -, ho, he⟩ | ⟨ts, w', c', hm, -, -, he⟩ | ⟨-, -, he⟩ <;> rw [he]
  · exact hn hm ho
  · refine ⟨?_, [], nofun, rfl⟩
    rw [Turn.suspended, List.append_nil]
    exact hT.moved hm
  · refine ⟨?_, [], nofun, rfl⟩
    rw [Turn.refused, List.append_nil]
    exact hT.length_le

/-- What is flushed is the last token, and cannot be flushed again. -/
theorem tells_flush (hT : (Writing.busy w .close).Tells A R c log) :
    (Writing.busy w.flush.1 .close).Tells A R c (log ++ w.flush.2) := by
  obtain ⟨hc, hl, ha⟩ := hT
  have hm : ∀ e ∈ w.flush.2, e.message = "flushing pending literal on close" := by
    intro e he
    rw [log_flush] at he
    obtain ⟨t, -, rfl⟩ := List.mem_map.1 he
    rfl
  have hf : about "flushing pending literal on close" w.flush.2 = w.flush.2 := about_eq_self hm
  have hb : about "token writer aborted" w.flush.2 = [] := by
    apply about_eq_nil
    intro e he
    rw [hm e he]
    decide
  refine ⟨?_, ?_, ?_⟩
  · rw [Counts, emitted_flush, hc]
  · rw [about_append, hf, merger_flush, Merger.held_empty, log_flush]
    simpa using hl
  · rw [about_append, ha, hb]
    rfl

theorem closes_close (hO : (Writing.busy w .close).Owes A R c)
    (hT : (Writing.busy w .close).Tells A R c log) : (w.close c).Closes A R log := by
  apply closes_drained hT
  intro ts w₁ c₁ hm₁ ho₁
  have hO₁ := hO.moved hm₁
  have hT₁ := hT.moved hm₁
  apply Turn.Closes.after
  · apply closes_drained (tells_flush hT₁)
    intro us w₂ c₂ hm₂ ho₂
    refine closes_mark ((owes_flush hO₁ ho₁).moved hm₂) ((tells_flush hT₁).moved hm₂) ho₂ ?_
    rw [hm₂.merger, merger_flush]
  · -- The run that is flushed ends what comes of the tokens.
    obtain ⟨-, X, -, hX⟩ := hO₁
    rw [log_flush]
    intro e he
    obtain ⟨x, hx, rfl⟩ := List.mem_map.1 he
    have hh : w₁.merger.held = [x] := by
      have hle := w₁.merger.length_held_le
      match hw : w₁.merger.held with
      | [] => simp [hw] at hx
      | [y] => simpa [hw, eq_comm] using hx
      | y :: z :: zs => simp [hw] at hle
    exact ⟨x, by rw [← hX, hh, List.getLast?_concat], rfl⟩

theorem tells_abortOn {r : Reason} (hT : (Writing.busy w (.abort r)).Tells A R c log) :
    (w.abortOn r c).writing.Tells A R (w.abortOn r c).channel log ∧ (w.abortOn r c).log = [] := by
  unfold abortOn
  rcases w.drained_cases c (.abort r) (fun _ => .gone)
      (fun w c => w.mark (.aborted r) (.abort r) [] c) with
    ⟨ts, w', c', hm, -, -, he⟩ | ⟨ts, w', c', hm, -, -, he⟩ | ⟨-, -, he⟩ <;> rw [he]
  · have hT' := hT.moved hm
    rcases w'.mark_cases (.aborted r) (.abort r) [] c' with
      ⟨-, -, hk⟩ | ⟨-, -, hk⟩ | ⟨-, hk⟩ <;> rw [hk]
    · exact ⟨hT'.length_le, rfl⟩
    · exact ⟨hT', rfl⟩
    · exact ⟨hT'.length_le, rfl⟩
  · exact ⟨hT.moved hm, rfl⟩
  · exact ⟨hT.length_le, rfl⟩

theorem tells_abort (hO : (Writing.idle w).Owes A R c) (hT : (Writing.idle w).Tells A R c log)
    (r : Reason) :
    (w.abort r c).writing.Tells A R (w.abort r c).channel
        (log ++ [.aborted r (endsWithLiteral A)]) ∧
      (w.abort r c).log = [.aborted r (endsWithLiteral A)] := by
  have hd : w.merger.discard.1 = endsWithLiteral A := by
    rw [hO.2.1]
    exact Merger.hasPending_after_eq A
  have hT' : (Writing.busy { w with merger := w.merger.discard.2 } (.abort r)).Tells A R c
      (log ++ [.aborted r (endsWithLiteral A)]) := by
    refine ⟨hT.1, rfl, ?_, ?_⟩
    · rw [about_append, hT.2.1]
      simp [about, Event.message]
    · rw [about_append, hT.2.2]
      simp [about, Event.message]
  obtain ⟨h, hl⟩ := tells_abortOn hT'
  refine ⟨h, ?_⟩
  rw [abort, Turn.after, hl, hd, List.append_nil]

end Writer

theorem mem_about {e : Event} (he : e ∈ log) : e ∈ about e.message log :=
  List.mem_filter.2 ⟨he, by simp⟩

/-- What was accepted was sent, waits in the outbox, or is the open run, which may have been
discarded already. -/
theorem Writing.Tells.balance {writing : Writing} (hO : writing.Owes A R c)
    (hT : writing.Tells A R c log)
    (hw : writing = .idle w ∨ ∃ call, call.writes = false ∧ writing = .busy w call) :
    w.written = A.length ∧ ∃ b : Bool,
      (b = true ↔ w.merger.discard.1 = true ∨ ∃ r, .aborted r true ∈ log) ∧
      R.length + c.tokens.length + w.outbox.length + b.toNat = (compress A).length := by
  have hlen : ∀ {X : List Token}, w.Balanced c R X →
      R.length + c.tokens.length + w.outbox.length = X.length := by
    intro X hb
    rw [← hb.line, List.length_append, List.length_append, Emitted.length_toList]
  have hnone : about "token writer aborted" log = [] → ¬ ∃ r, .aborted r true ∈ log := by
    rintro ha ⟨r, hr⟩
    have hm := mem_about hr
    rw [Event.message, ha] at hm
    contradiction
  rcases hw with rfl | ⟨call, hc, rfl⟩
  · obtain ⟨hn, hm, hb⟩ := hO
    have hp : w.merger.discard.1 = endsWithLiteral A := by
      rw [hm]
      exact Merger.hasPending_after_eq A
    refine ⟨hn, endsWithLiteral A, ?_, ?_⟩
    · rw [hp, or_iff_left (hnone hT.2.2)]
    · rw [hlen hb, length_compress_eq]
  · cases call with
    | write t => contradiction
    | settle => contradiction
    | close =>
      obtain ⟨hn, X, hb, hX⟩ := hO
      refine ⟨hn, w.merger.discard.1, ?_, ?_⟩
      · rw [or_iff_left (hnone hT.2.2)]
      · rw [hlen hb, ← hX, List.length_append, Merger.length_held, Merger.discard,
          Merger.hasPending]
        cases w.merger.pending <;> rfl
    | abort r =>
      obtain ⟨hn, hb⟩ := hO
      obtain ⟨-, hm, -, ha⟩ := hT
      refine ⟨hn, endsWithLiteral A, ?_, ?_⟩
      · have hd : w.merger.discard.1 = false := by rw [hm]; rfl
        rw [hd, or_iff_right Bool.false_ne_true]
        constructor
        · intro he
          rw [he] at ha
          have hm : .aborted r true ∈ about "token writer aborted" log := by simp [ha]
          exact ⟨r, (List.mem_filter.1 hm).1⟩
        · rintro ⟨r', hr'⟩
          have hm := mem_about hr'
          rw [Event.message, ha, List.mem_singleton] at hm
          exact (Event.aborted.inj hm).2.symm
      · rw [hlen hb, length_compress_eq]

end Stream

end Coalesce
