import Coalesce.Proofs.Stream.History

namespace Coalesce

namespace Stream

/-- The tokens `R` that were received, those in the channel and those in the outbox make up `X`. -/
structure Writer.Balanced (w : Writer) (c : Channel) (R X : List Token) : Prop where
  unmarked : c.frames = c.tokens.map .token
  line : R ++ c.tokens ++ w.outbox.toList = X

/-- What a writer that has accepted `A` still owes to a reader that has received `R`. -/
def Writing.Owes (A R : List Token) (c : Channel) : Writing → Prop
  | idle w | busy w (.write _) | busy w .settle =>
    w.written = A.length ∧ w.merger = .after A ∧ w.Balanced c R (final A)
  | busy w .close => w.written = A.length ∧ ∃ X, w.Balanced c R X ∧ X ++ w.merger.held = compress A
  | busy w (.abort _) => w.written = A.length ∧ w.Balanced c R (final A)
  | gone => False

namespace Writer.Balanced

variable {w w' : Writer} {c c' : Channel} {R X ts : List Token}

theorem moved (h : w.Balanced c R X) (hm : Moved w c ts w' c') : w'.Balanced c' R X := by
  obtain ⟨hout, rfl, -, -, -⟩ := hm
  refine ⟨?_, ?_⟩
  · rw [Channel.frames_extend, Channel.tokens_extend, List.map_append, ← h.unmarked]
  · rw [Channel.tokens_extend, ← h.line, hout]
    simp only [List.append_assoc]

theorem prefix_line (h : w.Balanced c R X) : R ++ c.tokens <+: X := by
  rw [← h.line]
  exact List.prefix_append _ _

theorem refill (h : w.Balanced c R X) (ho : w.outbox = {}) :
    w'.Balanced c R (X ++ w'.outbox.toList) := by
  refine ⟨h.unmarked, ?_⟩
  rw [← h.line, ho, Emitted.toList_empty, List.append_nil]

theorem line_of_empty (h : w.Balanced c R X) (ho : w.outbox = {}) : R ++ c.tokens = X := by
  rw [← h.line, ho, Emitted.toList_empty, List.append_nil]

end Writer.Balanced

theorem Writer.Balanced.taken {w : Writer} {c : Channel} {R X : List Token} {t : Token}
    {fs : List Frame} (h : w.Balanced c R X) (hf : c.frames = .token t :: fs) :
    w.Balanced { c with frames := fs } (R ++ [t]) X := by
  obtain ⟨hu, hX⟩ := h
  have ht : c.tokens = t :: fs.filterMap Frame.token? := by simp [Channel.tokens, hf, Frame.token?]
  rw [hf, ht, List.map_cons, List.cons.injEq] at hu
  exact ⟨hu.2, by rw [← hX, ht]; simp [Channel.tokens]⟩

theorem Writing.Owes.unmarked {A R : List Token} {c : Channel} {writing : Writing}
    (h : writing.Owes A R c) : c.frames = c.tokens.map .token := by
  rcases writing with w | ⟨w, t | _ | _ | r⟩ | _
  · exact h.2.2.unmarked
  · exact h.2.2.unmarked
  · exact h.2.2.unmarked
  · obtain ⟨-, X, hX, -⟩ := h
    exact hX.unmarked
  · exact h.2.unmarked
  · exact h.elim

theorem Writing.Owes.mono {A R R' : List Token} {c c' : Channel} {writing : Writing}
    (h : writing.Owes A R c)
    (hb : ∀ {w : Writer} {X : List Token}, w.Balanced c R X → w.Balanced c' R' X) :
    writing.Owes A R' c' := by
  rcases writing with w | ⟨w, t | _ | _ | r⟩ | _
  · exact ⟨h.1, h.2.1, hb h.2.2⟩
  · exact ⟨h.1, h.2.1, hb h.2.2⟩
  · exact ⟨h.1, h.2.1, hb h.2.2⟩
  · obtain ⟨hn, X, hX, hc⟩ := h
    exact ⟨hn, X, hb hX, hc⟩
  · exact ⟨h.1, hb h.2⟩
  · exact h

theorem Writing.Owes.moved {A R ts : List Token} {w w' : Writer} {c c' : Channel} {call : Call}
    (h : (Writing.busy w call).Owes A R c) (hm : w.Moved c ts w' c') :
    (Writing.busy w' call).Owes A R c' := by
  cases call with
  | write t =>
    obtain ⟨hn, ha, hb⟩ := h
    exact ⟨hm.written.trans hn, hm.merger.trans ha, hb.moved hm⟩
  | settle =>
    obtain ⟨hn, ha, hb⟩ := h
    exact ⟨hm.written.trans hn, hm.merger.trans ha, hb.moved hm⟩
  | close =>
    obtain ⟨hn, X, hb, hX⟩ := h
    exact ⟨hm.written.trans hn, X, hb.moved hm, by rw [hm.merger, hX]⟩
  | abort r =>
    obtain ⟨hn, hb⟩ := h
    exact ⟨hm.written.trans hn, hb.moved hm⟩

/-- To close is to owe what the merger holds, too. -/
theorem Writing.Owes.closing {A R : List Token} {w : Writer} {c : Channel}
    (h : (Writing.idle w).Owes A R c) : (Writing.busy w .close).Owes A R c := by
  obtain ⟨hn, hm, hb⟩ := h
  exact ⟨hn, final A, hb, by rw [hm, ← compress_eq_final]⟩

theorem Writing.Owes.aborting {A R : List Token} {w : Writer} {c : Channel}
    (h : (Writing.idle w).Owes A R c) (r : Reason) (m : Merger) :
    (Writing.busy { w with merger := m } (.abort r)).Owes A R c := by
  obtain ⟨hn, -, hb⟩ := h
  exact ⟨hn, hb.unmarked, hb.line⟩

/-- Nothing that was received or waits in the channel has to be taken back. -/
theorem Writing.Owes.prefix_compress {A R : List Token} {c : Channel} {writing : Writing}
    (h : writing.Owes A R c) : R ++ c.tokens <+: compress A := by
  rcases writing with w | ⟨w, t | _ | _ | r⟩ | _
  · exact h.2.2.prefix_line.trans (final_prefix_compress A)
  · exact h.2.2.prefix_line.trans (final_prefix_compress A)
  · exact h.2.2.prefix_line.trans (final_prefix_compress A)
  · obtain ⟨-, X, hb, hX⟩ := h
    exact hb.prefix_line.trans (hX ▸ List.prefix_append _ _)
  · exact h.2.prefix_line.trans (final_prefix_compress A)
  · exact h.elim

namespace Writer

variable {w : Writer} {c : Channel} {A R X : List Token}

theorem owes_settle (hw : (Writing.idle w).Owes A R c) :
    (w.settle c).writing.Owes A R (w.settle c).channel := by
  have hb : (Writing.busy w .settle).Owes A R c := hw
  rcases w.settle_cases c with ⟨ts, w', c', h, -, he⟩ | ⟨ts, w', c', h, -, he⟩ | ⟨-, he⟩ <;> rw [he]
  · exact hb.moved h
  · exact hb.moved h
  · exact hw

theorem balanced_accept (hb : w.Balanced c R (final A)) (hm : w.merger = .after A)
    (ho : w.outbox = {}) (t : Token) : (w.accept t).Balanced c R (final (A ++ [t])) := by
  have h : (w.accept t).Balanced c R (final A ++ (w.accept t).outbox.toList) := hb.refill ho
  rwa [show (w.accept t).outbox = ((Merger.after A).push t).1 by rw [accept, hm],
    ← final_concat] at h

theorem owes_write (hw : (Writing.idle w).Owes A R c) (t : Token) :
    (w.write t c).writing.Owes (A ++ List.replicate (w.admits c) t) R (w.write t c).channel := by
  have hb : (Writing.busy w (.write t)).Owes A R c := hw
  rcases w.write_cases t c with
    ⟨ts, w', c', h, ha, ho, he⟩ | ⟨ts, w', c', h, ha, -, he⟩ | ⟨ha, -, he⟩ <;> rw [he, ha]
  · obtain ⟨hn, hm, hb⟩ := hb.moved h
    rw [List.replicate_one]
    apply owes_settle
    exact ⟨by simp [accept, hn], by rw [accept, hm, Merger.after_concat],
      balanced_accept hb hm ho t⟩
  · rw [List.replicate_zero, List.append_nil]
    exact hb.moved h
  · rw [List.replicate_zero, List.append_nil]
    exact hw

end Writer

/-- What polling a call that is to end the writing by `e` can come to. -/
inductive Turn.Concludes (e : Ending) (A R : List Token) (listening : Bool) (t : Turn) : Prop where
  | suspended (w : Writer) (call : Call) (ho : t.outcome = none)
      (hl : t.channel.listening = listening) (hw : t.writing = .busy w call)
      (hc : call.writes = false) (hO : t.writing.Owes A R t.channel)
  | succeeded (ho : t.outcome = some (.ok ())) (hs : listening = true)
      (hl : t.channel.listening = true) (hw : t.writing = .gone)
      (hf : t.channel.frames = t.channel.tokens.map .token ++ e.marks)
      (hd : e.Delivers A (R ++ t.channel.tokens))
  | refused (ho : t.outcome = some (.error .readerDropped)) (hs : listening = false)
      (hl : t.channel.listening = false) (hw : t.writing = .gone)

theorem Turn.Concludes.after {e : Ending} {A R : List Token} {l : Bool} {t : Turn}
    (h : t.Concludes e A R l) (es : List Event) : (t.after es).Concludes e A R l := by
  cases h with
  | suspended w call ho hl hw hc hO => exact .suspended w call ho hl hw hc hO
  | succeeded ho hs hl hw hf hd => exact .succeeded ho hs hl hw hf hd
  | refused ho hs hl hw => exact .refused ho hs hl hw

namespace Writer

variable {w : Writer} {c : Channel} {A R X : List Token} {e : Ending}

theorem concludes_mark {f : Frame} {call : Call} {log : List Event} (hb : w.Balanced c R X)
    (ho : w.outbox = {}) (hm : e.marks = [f]) (hf : f.token? = none) (hd : e.Delivers A X)
    (hc : call.writes = false) (hw : (Writing.busy w call).Owes A R c) :
    (w.mark f call log c).Concludes e A R c.listening := by
  have hX := hb.line_of_empty ho
  have ht : (c.extend [f]).tokens = c.tokens := by simp [Channel.tokens, hf]
  rcases w.mark_cases f call log c with ⟨hl, -, he⟩ | ⟨-, -, he⟩ | ⟨hl, he⟩ <;> rw [he]
  · refine .succeeded rfl hl hl rfl ?_ ?_
    · rw [ht, hm, Channel.frames_extend, ← hb.unmarked]
    · rwa [ht, hX]
  · exact .suspended w call rfl rfl rfl hc hw
  · exact .refused rfl hl hl rfl

theorem concludes_drained {call : Call} {next : Writer → Channel → Turn} (hc : call.writes = false)
    (hw : (Writing.busy w call).Owes A R c)
    (hn : ∀ {ts w' c'}, w.Moved c ts w' c' → w'.outbox = {} →
      (next w' c').Concludes e A R c'.listening) :
    (w.drained c call (fun _ => .gone) next).Concludes e A R c.listening := by
  rcases w.drained_cases c call (fun _ => .gone) next with
    ⟨ts, w', c', hm, -, ho, he⟩ | ⟨ts, w', c', hm, -, -, he⟩ | ⟨-, hl, he⟩ <;> rw [he]
  · exact hm.listening ▸ hn hm ho
  · exact .suspended w' call rfl hm.listening rfl hc (hw.moved hm)
  · exact .refused rfl hl hl rfl

theorem concludes_abortOn {r : Reason} (hw : (Writing.busy w (.abort r)).Owes A R c) :
    (w.abortOn r c).Concludes (.abort r) A R c.listening := by
  apply concludes_drained rfl hw
  intro ts w' c' hm ho
  have hw' := hw.moved hm
  exact concludes_mark hw'.2 ho rfl rfl (dropLastLiteral_compress A).symm rfl hw'

theorem concludes_abort (hw : (Writing.idle w).Owes A R c) (r : Reason) :
    (w.abort r c).Concludes (.abort r) A R c.listening :=
  (concludes_abortOn (hw.aborting r _)).after _

/-- Neither the flush nor its drain changes what is owed: what the merger held is then in the
outbox, and the second drain starts from there. -/
theorem owes_flush (hw : (Writing.busy w .close).Owes A R c) (ho : w.outbox = {}) :
    (Writing.busy w.flush.1 .close).Owes A R c := by
  obtain ⟨hn, X, hb, hX⟩ := hw
  have h : w.flush.1.Balanced c R (X ++ w.flush.1.outbox.toList) := hb.refill ho
  rw [outbox_flush ho, hX] at h
  exact ⟨(written_flush w).trans hn, compress A, h, by simp⟩

theorem concludes_close (hw : (Writing.busy w .close).Owes A R c) :
    (w.close c).Concludes .close A R c.listening := by
  apply concludes_drained rfl hw
  intro ts w₁ c₁ hm₁ ho₁
  apply Turn.Concludes.after
  have hw₁ := owes_flush (hw.moved hm₁) ho₁
  apply concludes_drained rfl hw₁
  intro us w₂ c₂ hm₂ ho₂
  have hw₂ := hw₁.moved hm₂
  have ⟨_, X, hb, hX⟩ := hw₂
  rw [hm₂.merger, merger_flush, Merger.held_empty, List.append_nil] at hX
  exact concludes_mark hb ho₂ rfl rfl hX rfl hw₂

end Writer

/-- Where a stream stands, with `A` accepted, `R` received, the endings `E` and the verdicts `V`. -/
inductive Phase (A R : List Token) (E : List Ending) (V : List Item) (reading : Reading)
    (writing : Writing) (c : Channel) : Prop where
  /-- The writer is there. The channel is listened to unless the reader was dropped. -/
  | writing (hw : writing.Owes A R c) (hE : E = []) (hV : V = [])
      (hl : c.listening = true ↔ reading ≠ .gone)
  /-- The writer has gone, and the reader does not know yet. -/
  | ended (e : Ending) (hw : writing = .gone) (hE : E = [e]) (hV : V = [])
      (hl : c.listening = true) (hr : reading ≠ .gone)
      (hf : c.frames = c.tokens.map .token ++ e.marks) (hd : e.Delivers A (R ++ c.tokens))
  /-- The reader has been told, and from then on of nothing but the end. -/
  | told (e : Ending) (k : Nat) (hw : writing = .gone) (hE : E = [e])
      (hV : V = e.seen :: List.replicate k .ended) (hl : c.listening = false)
      (hf : c.frames = []) (hd : e.Delivers A R)
  /-- The reader was dropped before it was told, and the writer has gone. -/
  | abandoned (hw : writing = .gone) (hV : V = []) (hl : c.listening = false) (hr : reading = .gone)
      (hp : R <+: compress A)

namespace Phase

variable {A R : List Token} {E : List Ending} {V : List Item} {reading reading' : Reading}
  {writing : Writing} {c : Channel}

theorem prefix_compress (h : Phase A R E V reading writing c) : R <+: compress A := by
  cases h with
  | writing hw => exact (List.prefix_append _ _).trans hw.prefix_compress
  | ended e hw hE hV hl hr hf hd => exact (List.prefix_append _ _).trans hd.prefix_compress
  | told e k hw hE hV hl hf hd => exact hd.prefix_compress
  | abandoned hw hV hl hr hp => exact hp

theorem listening_iff (h : Phase A R E V reading writing c) (hr : reading ≠ .gone) :
    c.listening = true ↔ V = [] := by
  cases h with
  | writing hw hE hV hl => simp [hl, hr, hV]
  | ended e hw hE hV hl => simp [hl, hV]
  | told e k hw hE hV hl => simp [hl, hV]
  | abandoned hw hV hl hg => exact absurd hg hr

/-- Once the reader has been told, nothing depends on what becomes of it; before, only on whether it
is there. -/
theorem of_reading (h : Phase A R E V reading writing c)
    (hr : V = [] → (reading' = .gone ↔ reading = .gone)) : Phase A R E V reading' writing c := by
  cases h with
  | writing hw hE hV hl => exact .writing hw hE hV (by rw [hl, ne_eq, ne_eq, hr hV])
  | ended e hw hE hV hl hg hf hd => exact .ended e hw hE hV hl (by rwa [ne_eq, hr hV]) hf hd
  | told e k hw hE hV hl hf hd => exact .told e k hw hE hV hl hf hd
  | abandoned hw hV hl hg hp => exact .abandoned hw hV hl ((hr hV).2 hg) hp

theorem mute (h : Phase A R E V reading writing c) : Phase A R E V .gone writing c.mute := by
  cases h with
  | writing hw hE hV hl =>
    exact .writing (hw.mono fun hb => ⟨hb.unmarked, hb.line⟩) hE hV (by simp)
  | ended e hw hE hV hl hg hf hd =>
    exact .abandoned hw hV rfl rfl ((List.prefix_append _ _).trans hd.prefix_compress)
  | told e k hw hE hV hl hf hd => exact .told e k hw hE hV rfl hf hd
  | abandoned hw hV hl hg hp => exact .abandoned hw hV rfl rfl hp

theorem take (h : Phase A R E V reading writing c) (hl : c.listening = true) {t : Token}
    {fs : List Frame} (hf : c.frames = .token t :: fs) :
    Phase A (R ++ [t]) E V reading writing { c with frames := fs } := by
  cases h with
  | writing hw hE hV hr => exact .writing (hw.mono fun hb => hb.taken hf) hE hV hr
  | ended e hw hE hV _ hr hm hd =>
    have ht : c.tokens = t :: fs.filterMap Frame.token? := by
      simp [Channel.tokens, hf, Frame.token?]
    rw [hf, ht, List.map_cons, List.cons_append, List.cons.injEq] at hm
    refine .ended e hw hE hV hl hr hm.2 ?_
    rwa [ht, ← List.singleton_append, ← List.append_assoc] at hd
  | told e k hw hE hV hl' => rw [hl] at hl'; contradiction
  | abandoned hw hV hl' => rw [hl] at hl'; contradiction

theorem tell (h : Phase A R E V reading writing c) (hl : c.listening = true) {i : Item}
    {c' : Channel} (hl' : c'.listening = false) (hw : ¬ writing.Owes A R c)
    (hi : ∀ e : Ending, c.frames = c.tokens.map .token ++ e.marks →
      c.tokens = [] ∧ c'.frames = [] ∧ e.seen = i) :
    Phase A R E (V ++ [i]) reading writing c' := by
  cases h with
  | writing h => exact absurd h hw
  | ended e hw hE hV _ hr hm hd =>
    obtain ⟨ht, hf, rfl⟩ := hi e hm
    rw [ht, List.append_nil] at hd
    exact .told e 0 hw hE (by simp [hV]) hl' hf hd
  | told e k hw hE hV hd => rw [hl] at hd; contradiction
  | abandoned hw hV hd => rw [hl] at hd; contradiction

theorem tell_mark (h : Phase A R E V reading writing c) (hl : c.listening = true) {f : Frame}
    {fs : List Frame} {i : Item} (hf : c.frames = f :: fs) (hn : f.token? = none)
    (hi : ∀ e : Ending, e.marks = f :: fs → fs = [] ∧ e.seen = i) :
    Phase A R E (V ++ [i]) reading writing { c with frames := fs, listening := false } := by
  refine h.tell hl rfl ?_ ?_
  · -- While the writer is there, no mark is in the channel.
    intro hw
    have hu := hw.unmarked
    rw [← List.append_nil (c.tokens.map _)] at hu
    exact absurd (Channel.eq_marks_of_head hf hn hu).2 (by simp)
  · intro e hm
    obtain ⟨ht, hm⟩ := Channel.eq_marks_of_head hf hn hm
    exact ⟨ht, hi e hm⟩

theorem poll (h : Phase A R E V reading writing c) (hr : reading ≠ .gone) (r : Reader)
    {alone : Bool} (ha : alone = true ↔ writing = .gone) :
    Phase A (R ++ (r.poll alone c).1.taken) E (V ++ (r.poll alone c).1.verdict) reading writing
      (r.poll alone c).2.2.1 := by
  rcases r.poll_cases alone c with ⟨hc, he⟩ | ⟨hc, t, fs, hf, he⟩ | ⟨hc, fs, hf, he⟩ |
      ⟨hc, e, fs, hf, he⟩ | ⟨hc, hf, hal, he⟩ | ⟨hc, hf, hal, he⟩ <;>
    rw [he] <;> simp only [Item.taken, Item.verdict, List.append_nil]
  · -- A reader that no longer listens but is there has been told.
    cases h with
    | writing hw hE hV hl => simp [hc, hr] at hl
    | ended e hw hE hV hl => simp [hc] at hl
    | told e k hw hE hV hl hf hd =>
      refine .told e (k + 1) hw hE ?_ hl hf hd
      rw [hV, List.cons_append, List.replicate_succ']
    | abandoned hw hV hl hg => exact absurd hg hr
  · exact h.take hc hf
  · apply h.tell_mark hc hf rfl
    intro e hm
    cases e <;> simp [Ending.marks] at hm
    exact ⟨hm, rfl⟩
  · apply h.tell_mark hc hf rfl
    intro e' hm
    cases e' <;> simp [Ending.marks] at hm
    obtain ⟨rfl, rfl⟩ := hm
    exact ⟨rfl, rfl⟩
  · -- With nothing in the channel and the writer gone, there was no mark: it was dropped.
    refine h.tell hc rfl (by rw [ha.1 hal]; exact id) ?_
    intro e hm
    have ht : c.tokens = [] := by simp [Channel.tokens, hf]
    rw [hf, ht, List.map_nil, List.nil_append] at hm
    cases e with
    | close => simp [Ending.marks] at hm
    | abort r => simp [Ending.marks] at hm
    | drop => exact ⟨ht, hf, rfl⟩
  · exact h

theorem collect (h : Phase A R E V reading writing c) (hr : reading ≠ .gone) (r : Reader)
    (taken : List Token) {alone : Bool} (ha : alone = true ↔ writing = .gone) :
    Phase A (R ++ r.drawn alone c) E (V ++ collectVerdict (r.collect alone taken c).1)
      (r.collect alone taken c).2.1 writing (r.collect alone taken c).2.2.1 := by
  -- Each token that is taken leads to a phase in which one more has been received.
  fun_induction Reader.collect r alone taken c generalizing R with
  | case1 r taken c t r' c' es hp out s c'' es' hc ih =>
    have hpoll := h.poll hr r ha
    rw [hp] at hpoll
    simp only [Item.taken, Item.verdict, List.append_nil] at hpoll
    have h' := ih hpoll
    rw [hc, List.append_assoc] at h'
    rw [Reader.drawn, hp]
    exact h'
  | case2 r taken c r' c' es hp =>
    have hpoll := h.poll hr r ha
    rw [hp] at hpoll
    rw [Reader.drawn, hp]
    exact hpoll.of_reading (by simp [Item.verdict])
  | case3 r taken c f r' c' es hp =>
    have hpoll := h.poll hr r ha
    rw [hp] at hpoll
    rw [Reader.drawn, hp]
    exact hpoll.of_reading (by simp [Item.verdict])
  | case4 r taken c r' c' es hp =>
    have hpoll := h.poll hr r ha
    rw [hp] at hpoll
    rw [Reader.drawn, hp]
    exact hpoll.of_reading (by simp [hr])

theorem of_writing (h : Phase A R E V reading writing c) (hw : writing ≠ .gone) :
    writing.Owes A R c ∧ E = [] ∧ V = [] ∧ (c.listening = true ↔ reading ≠ .gone) := by
  cases h with
  | writing ho hE hV hl => exact ⟨ho, hE, hV, hl⟩
  | ended e hg => exact absurd hg hw
  | told e k hg => exact absurd hg hw
  | abandoned hg => exact absurd hg hw

/-- A turn of a write goes on from where the stream stands. -/
theorem turn {A' : List Token} {t : Turn} (h : Phase A R E V reading writing c)
    (hw : writing ≠ .gone) (ho : t.writing.Owes A' R t.channel)
    (hl : t.channel.listening = c.listening) : Phase A' R E V reading t.writing t.channel := by
  obtain ⟨-, hE, hV, hr⟩ := h.of_writing hw
  exact .writing ho hE hV (by rw [hl, hr])

theorem conclude {e : Ending} {t : Turn} (h : Phase A R E V reading writing c)
    (hw : writing ≠ .gone) (ht : t.Concludes e A R c.listening) :
    Phase A R (E ++ (if t.answer = .ok then some e else none).toList) V reading t.writing
      t.channel := by
  have hp := h.prefix_compress
  obtain ⟨-, hE, hV, hr⟩ := h.of_writing hw
  cases ht with
  | suspended w call ho hl _ _ hO =>
    rw [if_neg (by simp [Turn.answer, ho]), Option.toList_none, List.append_nil]
    exact .writing hO hE hV (by rw [hl, hr])
  | succeeded ho hs hl ht hf hd =>
    rw [if_pos (by simp [Turn.answer, ho]), hE]
    exact .ended e ht rfl hV hl (hr.1 hs) hf hd
  | refused ho hs hl ht =>
    rw [if_neg (by simp [Turn.answer, ho]), Option.toList_none, List.append_nil]
    exact .abandoned ht hV hl (by simpa [hs] using hr) hp

theorem release (h : Phase A R E V reading writing c) (hw : writing ≠ .gone) :
    Phase A R (E ++ [.drop]) V reading .gone c := by
  obtain ⟨ho, hE, hV, hr⟩ := h.of_writing hw
  cases hl : c.listening with
  | true =>
    -- What is in the channel is still delivered, what is in the outbox is not.
    refine .ended .drop rfl (by rw [hE, List.nil_append]) hV hl (hr.1 hl) ?_ ho.prefix_compress
    rw [Ending.marks, List.append_nil, ← ho.unmarked]
  | false => exact .abandoned rfl hV hl (by simpa [hl] using hr) h.prefix_compress

end Phase

end Stream

end Coalesce
