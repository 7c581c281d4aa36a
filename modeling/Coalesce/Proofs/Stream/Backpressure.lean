import Coalesce.Proofs.Stream.Conservation

namespace Coalesce.Stream

def Writing.writer? : Writing → Option Writer
  | idle w | busy w _ => some w
  | gone => none

/-- How many tokens a writer holds back, the open run counted as one. -/
def Writer.backlog (w : Writer) : Nat := w.outbox.length + w.merger.hasPending.toNat

theorem Writer.backlog_eq (w : Writer) :
    w.backlog = w.outbox.toList.length + w.merger.held.length := by
  rw [backlog, Emitted.length_toList, Merger.length_held, Merger.hasPending]
  cases w.merger.pending <;> rfl

namespace Channel

/-- A channel with `n` places, and no more frames than that. -/
structure Within (n : Nat) (c : Channel) : Prop where
  capacity : c.capacity = n
  frames : c.frames.length ≤ n

variable {n : Nat} {c : Channel}

theorem Within.extend (h : c.Within n) {fs : List Frame} (hr : fs.length ≤ c.room) :
    (c.extend fs).Within n := by
  obtain ⟨hc, hf⟩ := h
  refine ⟨hc, ?_⟩
  rw [room, hc] at hr
  rw [frames_extend, List.length_append]
  omega

theorem Within.tail (h : c.Within n) {f : Frame} {fs : List Frame} (hf : c.frames = f :: fs) :
    Within n { c with frames := fs } := by
  have hn := h.frames
  rw [hf, List.length_cons] at hn
  exact ⟨h.capacity, Nat.le_of_succ_le hn⟩

theorem Within.mute (h : c.Within n) : c.mute.Within n := ⟨h.capacity, h.frames⟩

theorem tokens_prefix_extend (c : Channel) (fs : List Frame) : c.tokens <+: (c.extend fs).tokens := by
  rw [tokens, tokens, frames_extend, List.filterMap_append]
  exact List.prefix_append _ _

theorem tokens_of_cons {f : Frame} {fs : List Frame} (hf : c.frames = f :: fs) :
    c.tokens = f.token?.toList ++ ({ c with frames := fs } : Channel).tokens := by
  rw [tokens, tokens, hf, List.filterMap_cons]
  cases f.token? <;> rfl

end Channel

/-- Part way through an operation that found the tokens `ts` in the channel. -/
structure Writer.Bounded (n : Nat) (ts : List Token) (w : Writer) (c : Channel) : Prop where
  channel : c.Within n
  backlog : w.backlog ≤ 2
  tokens : ts <+: c.tokens

/-- What an operation comes to that found the tokens `ts` in the channel. -/
structure Turn.Bounded (n : Nat) (ts : List Token) (t : Turn) : Prop where
  channel : t.channel.Within n
  backlog : ∀ w ∈ t.writing.writer?, w.backlog ≤ 2
  tokens : ts <+: t.channel.tokens

theorem Turn.Bounded.after {n : Nat} {ts : List Token} {t : Turn} (h : t.Bounded n ts)
    (es : List Event) : (t.after es).Bounded n ts := ⟨h.channel, h.backlog, h.tokens⟩

namespace Writer.Bounded

variable {n : Nat} {ts : List Token} {w : Writer} {c : Channel}

theorem stop (h : w.Bounded n ts c) {writing : Writing}
    (hw : writing.writer? = some w ∨ writing.writer? = none) (o : Option (Except Failure Unit))
    (es : List Event) : Turn.Bounded n ts ⟨o, writing, c, es⟩ := by
  refine ⟨h.channel, ?_, h.tokens⟩
  intro v hv
  rcases hw with hw | hw
  · obtain rfl : w = v := Option.some.inj (hw.symm.trans hv)
    exact h.backlog
  · rw [hw] at hv
    contradiction

theorem drain (h : w.Bounded n ts c) : (w.drain c).2.1.Bounded n ts (w.drain c).2.2 := by
  cases hl : c.listening with
  | true =>
    rw [w.drain_of_listening hl]
    refine ⟨h.channel.extend ?_, ?_, h.tokens.trans (c.tokens_prefix_extend _)⟩
    · rw [List.length_map, List.length_take]
      exact Nat.min_le_left _ _
    · have hb := h.backlog
      rw [backlog_eq] at hb
      rw [backlog_eq, toList_outbox_unload, merger_unload, List.length_drop]
      omega
  | false =>
    rw [w.drain_of_deaf hl]
    exact h

theorem drained (h : w.Bounded n ts c) (call : Call) {left : Writer → Writing}
    {next : Writer → Channel → Turn}
    (hw : ∀ w, (left w).writer? = some w ∨ (left w).writer? = none)
    (hn : ∀ {w' c'}, w'.Bounded n ts c' → (next w' c').Bounded n ts) :
    (w.drained c call left next).Bounded n ts := by
  have hd := h.drain
  unfold Writer.drained
  generalize w.drain c = d at hd
  obtain ⟨_ | _ | _, w', c'⟩ := d
  · exact hn hd
  · exact hd.stop (.inl rfl) none []
  · exact hd.stop (hw w') _ []

theorem settle (h : w.Bounded n ts c) : (w.settle c).Bounded n ts := by
  apply h.drained .settle fun _ => .inl rfl
  intro w' c' h'
  exact h'.stop (.inl rfl) _ []

/-- What a push makes final and what it leaves open are two tokens at most. -/
theorem accept (h : w.Bounded n ts c) (t : Token) : (w.accept t).Bounded n ts c := by
  refine ⟨h.channel, ?_, h.tokens⟩
  have hp := w.merger.push_length_le t
  rw [backlog_eq, Merger.length_held, Emitted.length_toList]
  exact hp

theorem write (h : w.Bounded n ts c) (t : Token) : (w.write t c).Bounded n ts := by
  apply h.drained (.write t) fun _ => .inl rfl
  intro w' c' h'
  exact (h'.accept t).settle

theorem flush (h : w.Bounded n ts c) : w.flush.1.Bounded n ts c := by
  refine ⟨h.channel, ?_, h.tokens⟩
  have hb := h.backlog
  unfold Writer.flush Merger.finish
  cases hp : w.merger.pending with
  | none =>
    rw [Writer.backlog] at hb
    exact Nat.le_trans (Nat.le_add_right _ _) hb
  | some r => exact Nat.le_succ 1

theorem mark (h : w.Bounded n ts c) (f : Frame) (call : Call) (log : List Event) :
    (w.mark f call log c).Bounded n ts := by
  rcases w.mark_cases f call log c with ⟨-, hr, he⟩ | ⟨-, -, he⟩ | ⟨-, he⟩ <;> rw [he]
  · have hf : w.Bounded n ts (c.extend [f]) :=
      ⟨h.channel.extend hr, h.backlog, h.tokens.trans (c.tokens_prefix_extend _)⟩
    exact hf.stop (.inr rfl) _ log
  · exact h.stop (.inl rfl) none []
  · exact h.stop (.inr rfl) _ []

theorem close (h : w.Bounded n ts c) : (w.close c).Bounded n ts := by
  apply h.drained .close fun _ => .inr rfl
  intro w₁ c₁ h₁
  apply Turn.Bounded.after
  apply h₁.flush.drained .close fun _ => .inr rfl
  intro w₂ c₂ h₂
  exact h₂.mark _ _ _

theorem abortOn (h : w.Bounded n ts c) (r : Reason) : (w.abortOn r c).Bounded n ts := by
  apply h.drained (.abort r) fun _ => .inr rfl
  intro w' c' h'
  exact h'.mark _ _ _

theorem abort (h : w.Bounded n ts c) (r : Reason) : (w.abort r c).Bounded n ts := by
  have hd : Writer.Bounded n ts { w with merger := w.merger.discard.2 } c :=
    ⟨h.channel, Nat.le_trans (Nat.le_add_right _ _) h.backlog, h.tokens⟩
  exact (hd.abortOn r).after _

end Writer.Bounded

/-- The tokens `ts` have left a channel, and nothing has come in. -/
structure Channel.Gave (ts : List Token) (c c' : Channel) : Prop where
  tokens : c.tokens = ts ++ c'.tokens
  within : ∀ {n}, c.Within n → c'.Within n

namespace Reader

variable {c : Channel}

theorem poll_gave (r : Reader) (alone : Bool) (c : Channel) :
    c.Gave (r.poll alone c).1.taken (r.poll alone c).2.2.1 := by
  rcases r.poll_cases alone c with ⟨-, he⟩ | ⟨-, t, fs, hf, he⟩ | ⟨-, fs, hf, he⟩ |
      ⟨-, e, fs, hf, he⟩ | ⟨-, -, -, he⟩ | ⟨-, -, -, he⟩ <;> rw [he]
  · exact ⟨rfl, id⟩
  · exact ⟨Channel.tokens_of_cons hf, fun h => h.tail hf⟩
  · exact ⟨Channel.tokens_of_cons hf, fun h => (h.tail hf).mute⟩
  · exact ⟨Channel.tokens_of_cons hf, fun h => (h.tail hf).mute⟩
  · exact ⟨rfl, .mute⟩
  · exact ⟨rfl, id⟩

theorem collect_gave (r : Reader) (alone : Bool) (taken : List Token) (c : Channel) :
    c.Gave (r.drawn alone c) (r.collect alone taken c).2.2.1 := by
  fun_induction collect r alone taken c with
  | case1 r taken c t r' c' es hp out s c'' es' hc ih =>
    have hg := r.poll_gave alone c
    rw [hp] at hg
    rw [hc] at ih
    rw [drawn, hp]
    exact ⟨by rw [hg.tokens, ih.tokens]; rfl, fun h => ih.within (hg.within h)⟩
  | case2 r taken c r' c' es hp =>
    have hg := r.poll_gave alone c
    rw [hp] at hg
    rw [drawn, hp]
    exact hg
  | case3 r taken c f r' c' es hp =>
    have hg := r.poll_gave alone c
    rw [hp] at hg
    rw [drawn, hp]
    exact hg
  | case4 r taken c r' c' es hp =>
    have hg := r.poll_gave alone c
    rw [hp] at hg
    rw [drawn, hp]
    exact hg

end Reader

namespace History

/-- The bounds on a stream with `n` places. -/
structure Bounded (n : Nat) (h : History) : Prop where
  channel : h.stream.channel.Within n
  backlog : ∀ w ∈ h.stream.writing.writer?, w.backlog ≤ 2
  lag : (compress h.accepted).length ≤ h.received.length + h.stream.channel.tokens.length + 2

variable {n : Nat} {h h' : History} {w : Writer} {r : Reader}

theorem bounded_start (n : Nat) : Bounded n { stream := { channel := { capacity := n } } } where
  channel := ⟨rfl, Nat.zero_le n⟩
  backlog := by
    rintro w ⟨⟩
    exact Nat.zero_le 2
  lag := Nat.zero_le 2

/-- While the writer is at no close and no abort, what was accepted and is neither received nor in
the channel is its backlog. -/
theorem Sound.lag (hs : h.Sound) (hb : w.backlog ≤ 2)
    (hw : h.stream.writing = .idle w ∨ ∃ call, call.writes = true ∧ h.stream.writing = .busy w call) :
    (compress h.accepted).length ≤ h.received.length + h.stream.channel.tokens.length + 2 := by
  have hc : h.received ++ h.stream.channel.tokens ++ w.outbox.toList ++ w.merger.held =
      compress h.accepted := by
    rcases hw with hw | ⟨call, hc, hw⟩
    · exact (hs.owes hw nofun).conserves.2
    · cases call with
      | write t => exact (hs.owes hw nofun).conserves.2
      | settle => exact (hs.owes hw nofun).conserves.2
      | close => contradiction
      | abort r => contradiction
  rw [Writer.backlog_eq] at hb
  rw [← hc]
  simp only [List.length_append]
  omega

namespace Bounded

theorem writer (hb : h.Bounded n) {writing : Writing} (hw : h.stream.writing = writing)
    (hv : writing.writer? = some w) : w.Bounded n h.stream.channel.tokens h.stream.channel :=
  ⟨hb.channel, hb.backlog w (by rw [hw, hv]; rfl), List.prefix_refl _⟩

theorem turn (hb : h.Bounded n) {turn : Turn} (ht : turn.Bounded n h.stream.channel.tokens)
    (hs : h'.stream = { h.stream with writing := turn.writing, channel := turn.channel })
    (hA : h'.accepted = h.accepted) (hR : h'.received = h.received) : h'.Bounded n := by
  have hl := hb.lag
  have hle := ht.tokens.length_le
  refine ⟨?_, ?_, ?_⟩
  · rw [hs]
    exact ht.channel
  · rw [hs]
    exact ht.backlog
  · rw [hs, hA, hR]
    show _ ≤ _ + turn.channel.tokens.length + 2
    omega

theorem of_write {ts : List Token} {t : Token} {c : Channel} (hs : h'.Sound)
    (ht : (w.write t c).Bounded n ts) (hw : h'.stream.writing = (w.write t c).writing)
    (hc : h'.stream.channel = (w.write t c).channel) : h'.Bounded n := by
  have hb : ∀ v ∈ h'.stream.writing.writer?, v.backlog ≤ 2 := hw ▸ ht.backlog
  refine ⟨hc ▸ ht.channel, hb, ?_⟩
  rcases w.write_writing t c with ⟨v, -, hv⟩ | ⟨v, call, hcall, hv⟩
  · rw [← hw] at hv
    exact hs.lag (hb v (by rw [hv]; rfl)) (.inl hv)
  · rw [← hw] at hv
    exact hs.lag (hb v (by rw [hv]; rfl)) (.inr ⟨call, hcall, hv⟩)

theorem startWrite (hb : h.Bounded n) (hs : h.Sound) (hw : h.stream.writing = .idle w)
    (t : Token) : (h.step (.startWrite t)).Bounded n := by
  have hs' := hs.startWrite hw t
  apply of_write hs' ((hb.writer hw rfl).write t) <;> rw [step_startWrite hw] <;> rfl

theorem pollWriter {call : Call} (hb : h.Bounded n) (hs : h.Sound)
    (hw : h.stream.writing = .busy w call) : (h.step .pollWriter).Bounded n := by
  have hwr := hb.writer hw rfl
  have ht := hs.tracks
  rw [hw] at ht
  cases call with
  | write t =>
    have hs' := hs.pollWriter hw
    obtain ⟨past, hp⟩ := ht
    apply of_write hs' (hwr.write t) <;> rw [step_pollWrite hw hp] <;> rfl
  | settle =>
    obtain ⟨past, t, hp⟩ := ht
    rw [step_pollSettle hw hp]
    refine hb.turn hwr.settle rfl ?_ rfl
    simp [History.accepted, hp, WriteCall.accepted]
  | close =>
    rw [step_pollClose hw]
    exact hb.turn hwr.close rfl rfl rfl
  | abort r =>
    rw [step_pollAbort hw]
    exact hb.turn (hwr.abortOn r) rfl rfl rfl

theorem close (hb : h.Bounded n) (hw : h.stream.writing = .idle w) : (h.step .close).Bounded n := by
  rw [step_close hw]
  exact hb.turn (hb.writer hw rfl).close rfl rfl rfl

theorem abort (hb : h.Bounded n) (hw : h.stream.writing = .idle w) (r : Reason) :
    (h.step (.abort r)).Bounded n := by
  rw [step_abort hw]
  exact hb.turn ((hb.writer hw rfl).abort r) rfl rfl rfl

theorem released (hb : h.Bounded n) : h.released.Bounded n := ⟨hb.channel, nofun, hb.lag⟩

theorem cancelWriter {call : Call} (hb : h.Bounded n) (hw : h.stream.writing = .busy w call) :
    (h.step .cancelWriter).Bounded n := by
  rw [step_cancelWriter hw]
  by_cases hc : call.writes = true
  · rw [if_pos hc]
    have hbk := hb.backlog
    rw [hw] at hbk
    exact ⟨hb.channel, hbk, hb.lag⟩
  · rw [if_neg hc]
    exact hb.released

theorem write (hb : h.Bounded n) (hs : h.Sound) (hw : h.stream.writing = .idle w) (t : Token) :
    (h.step (.write t)).Bounded n := by
  have hb' := hb.startWrite hs hw t
  rw [step_write hw]
  cases hi : (h.step (.startWrite t)).stream.writing with
  | busy w' call => exact hb'.cancelWriter hi
  | idle w' => rwa [step_of_refuses .cancelWriter (by simp [refuses, hi])]
  | gone => rwa [step_of_refuses .cancelWriter (by simp [refuses, hi])]

theorem read (hb : h.Bounded n) {reading : Reading} {c : Channel} {ts : List Token}
    {V : List Item} (hg : h.stream.channel.Gave ts c) :
    Bounded n { h with
      stream := { h.stream with reading, channel := c }
      received := h.received ++ ts, verdicts := V } := by
  have hl := hb.lag
  rw [hg.tokens] at hl
  refine ⟨hg.within hb.channel, hb.backlog, ?_⟩
  show (compress h.accepted).length ≤ (h.received ++ ts).length + c.tokens.length + 2
  simp only [List.length_append] at *
  omega

theorem next (hb : h.Bounded n) (hr : h.stream.reading = .idle r) : (h.step .next).Bounded n := by
  rw [step_next hr]
  exact hb.read (r.poll_gave _ _)

theorem gathered (hb : h.Bounded n) (r : Reader) (taken : List Token) :
    (h.gathered r taken).Bounded n :=
  hb.read (r.collect_gave _ taken _)

theorem deafened (hb : h.Bounded n) : h.deafened.Bounded n :=
  ⟨hb.channel.mute, hb.backlog, hb.lag⟩

theorem step (hb : h.Bounded n) (hs : h.Sound) (op : Op) : (h.step op).Bounded n := by
  by_cases hf : h.stream.refuses op = true
  · rwa [step_of_refuses op hf]
  · unfold refuses at hf
    split at hf
    · next t w hw => exact hb.write hs hw t
    · next t w hw => exact hb.startWrite hs hw t
    · next w hw => exact hb.close hw
    · next r w hw => exact hb.abort hw r
    · next w hw => exact step_dropWriter hw ▸ hb.released
    · next w call hw => exact hb.pollWriter hs hw
    · next w call hw => exact hb.cancelWriter hw
    · next r hr => exact hb.next hr
    · next r hr => exact step_collect hr ▸ hb.gathered r []
    · next r hr => exact step_dropReader hr ▸ hb.deafened
    · next r taken hr => exact step_pollReader hr ▸ hb.gathered r taken
    · next r taken hr => exact step_cancelReader hr ▸ hb.deafened
    · exact absurd rfl hf

theorem run (hb : h.Bounded n) (hs : h.Sound) (ops : List Op) : (h.run ops).Bounded n := by
  induction ops generalizing h with
  | nil => exact hb
  | cons op ops ih => exact ih (hb.step hs op) (hs.step op)

end Bounded

theorem Reachable.bounded (hr : h.Reachable) : ∃ n, h.Bounded n := by
  induction hr with
  | start hs =>
    rw [eq_of_withCapacity hs]
    exact ⟨_, bounded_start _⟩
  | step op hr ih =>
    obtain ⟨n, hb⟩ := ih
    exact ⟨n, hb.step hr.sound op⟩

/-- A reader that has been told has left nothing in the channel. -/
theorem Sound.tokens_of_told (hs : h.Sound) (hv : h.verdicts ≠ []) :
    h.stream.channel.tokens = [] := by
  have hp := hs.phase
  cases hp with
  | writing hw hE hV hl => exact absurd hV hv
  | ended e hw hE hV hl => exact absurd hV hv
  | told e k hw hE hV hl hf hd => simp [Channel.tokens, hf]
  | abandoned hw hV hl hg => exact absurd hV hv

/-- The writer runs ahead of the reader by what the buffer takes and two tokens more, and no more
than those two are lost if it goes. -/
theorem backpressure {n : UInt64} {s : Stream} (hs : withCapacity n = .ok s) (ops : List Op) :
    let h := ({ stream := s } : History).run ops
    h.stream.channel.frames.length ≤ max n.toNat 1 ∧
    (∀ w ∈ h.stream.writing.writer?, w.outbox.length + w.merger.hasPending.toNat ≤ 2) ∧
    (compress h.accepted).length ≤ h.received.length + h.stream.channel.tokens.length + 2 ∧
    (compress h.accepted).length ≤ h.received.length + max n.toNat 1 + 2 ∧
    (h.verdicts ≠ [] → (compress h.accepted).length ≤ h.received.length + 2) := by
  intro h
  have hr : h.Reachable := (Reachable.start hs).run ops
  have hb : h.Bounded (max n.toNat 1) := by
    have hstart := bounded_start (max n.toNat 1)
    rw [← eq_of_withCapacity hs] at hstart
    exact hstart.run (sound_start hs) ops
  have hf := hb.channel.frames
  have hl := hb.lag
  have ht : h.stream.channel.tokens.length ≤ h.stream.channel.frames.length :=
    List.length_filterMap_le _ _
  refine ⟨hf, hb.backlog, hl, by omega, ?_⟩
  intro hv
  rwa [hr.sound.tokens_of_told hv] at hl

/-- The bounds are met: of four tokens one waits in the only place and two are held back, and these
are lost with the writer. -/
theorem backpressure_full :
    let a : Token := ⟨.interpolation, "a", ⟨0, 1⟩⟩
    let b : Token := ⟨.interpolation, "b", ⟨1, 2⟩⟩
    let c : Token := ⟨.literal, "c", ⟨2, 3⟩⟩
    let d : Token := ⟨.interpolation, "d", ⟨3, 4⟩⟩
    let s : Stream := { channel := { capacity := 1 } }
    let ops : List Op := [.write a, .write b, .next, .write c, .write d]
    let h := ({ stream := s } : History).run ops
    let h' := ({ stream := s } : History).run (ops ++ [.dropWriter, .collect])
    withCapacity 1 = .ok s ∧
      h.stream.writing.writer? = some ⟨{}, ⟨some c, some d⟩, 4, 2⟩ ∧
      (compress h.accepted).length = 4 ∧ h.received = [a] ∧ h.stream.channel.tokens = [b] ∧
      (compress h.accepted).length ≤ h.received.length + h.stream.channel.tokens.length + 2 ∧
      h'.verdicts = [.failed .writerDropped] ∧ h'.received = [a, b] ∧
      (compress h'.accepted).length ≤ h'.received.length + 2 := by
  intro a b c d s ops h h'
  have hs : withCapacity 1 = .ok s := rfl
  have hv : h'.verdicts = [.failed .writerDropped] := by decide +kernel
  obtain ⟨-, -, hl, -, -⟩ := backpressure hs ops
  obtain ⟨-, -, -, -, ht⟩ := backpressure hs (ops ++ [.dropWriter, .collect])
  exact ⟨hs, by decide +kernel, by decide +kernel, by decide +kernel, by decide +kernel, hl, hv,
    by decide +kernel, ht (by rw [hv]; nofun)⟩

end History

end Coalesce.Stream
