import Coalesce.Proofs.Stream.Phase

namespace Coalesce.Stream

/-- A write call that is suspended is the last of the calls. -/
def Writing.Tracks (calls : List WriteCall) : Writing → Prop
  | busy _ (.write t) => ∃ past, calls = past ++ [⟨t, 0, .pending⟩]
  | busy _ .settle => ∃ past t, calls = past ++ [⟨t, 1, .pending⟩]
  | _ => True

/-- The reader has counted what was received, and a collection holds the last of it. -/
def Reading.Counts (R : List Token) : Reading → Prop
  | idle r => r.delivered = R.length
  | collecting r taken => r.delivered = R.length ∧ taken <:+ R
  | gone => True

/-- A write call is accepted at most once, and one that has succeeded has been. -/
structure WriteCall.Sound (call : WriteCall) : Prop where
  passes_le : call.passes ≤ 1
  passes_of_ok : call.answer = .ok → call.passes = 1
  answer : call.answer = .ok ∨ call.answer = .pending ∨ call.answer = .failed .readerDropped

/-- A poll of a write call of `t`, which has been accepted `n` times after it. -/
structure Turn.Continues (turn : Turn) (t : Token) (n : Nat) (listening : Bool) : Prop where
  tracks : ∀ past, turn.writing.Tracks (past ++ [⟨t, n, turn.answer⟩])
  sound : WriteCall.Sound ⟨t, n, turn.answer⟩
  deaf : turn.answer = .failed .readerDropped → listening = false
  listening : turn.channel.listening = listening

namespace Writer

theorem settle_continues (w : Writer) (c : Channel) (t : Token) :
    (w.settle c).Continues t 1 c.listening := by
  rcases w.settle_cases c with
    ⟨ts, w', c', h, -, he⟩ | ⟨ts, w', c', h, -, he⟩ | ⟨hl, he⟩ <;> rw [he]
  · exact ⟨fun _ => trivial, ⟨Nat.le_refl 1, fun _ => rfl, .inl rfl⟩, nofun, h.listening⟩
  · exact ⟨fun past => ⟨past, t, rfl⟩, ⟨Nat.le_refl 1, fun _ => rfl, .inr (.inl rfl)⟩, nofun,
      h.listening⟩
  · exact ⟨fun _ => trivial, ⟨Nat.le_refl 1, fun _ => rfl, .inr (.inr rfl)⟩, fun _ => hl, rfl⟩

theorem write_continues (w : Writer) (t : Token) (c : Channel) :
    (w.write t c).Continues t (w.admits c) c.listening := by
  rcases w.write_cases t c with
    ⟨ts, w', c', h, ha, -, he⟩ | ⟨ts, w', c', h, ha, -, he⟩ | ⟨ha, hl, he⟩ <;> rw [he, ha]
  · rw [← h.listening]
    exact (w'.accept t).settle_continues c' t
  · exact ⟨fun past => ⟨past, rfl⟩, ⟨Nat.zero_le 1, nofun, .inr (.inl rfl)⟩, nofun, h.listening⟩
  · exact ⟨fun _ => trivial, ⟨Nat.zero_le 1, nofun, .inr (.inr rfl)⟩, fun _ => hl, rfl⟩

end Writer

namespace History

/-- What holds of every history. -/
structure Sound (h : History) : Prop where
  phase : Phase h.accepted h.received h.endings h.verdicts h.stream.reading h.stream.writing
    h.stream.channel
  tracks : h.stream.writing.Tracks h.calls
  counts : h.stream.reading.Counts h.received
  calls : ∀ call ∈ h.calls, call.Sound
  failed : ∀ call ∈ h.calls, call.answer = .failed .readerDropped →
    h.stream.reading = .gone ∧ h.verdicts = []

theorem sound_start {n : UInt64} {s : Stream} (h : withCapacity n = .ok s) :
    Sound { stream := s } := by
  rw [eq_of_withCapacity h]
  exact ⟨.writing ⟨rfl, rfl, rfl, rfl⟩ rfl rfl (by simp), trivial, rfl, nofun, nofun⟩

namespace Sound

variable {h : History} {w : Writer} {r : Reader} {past : List WriteCall} {t : Token}

theorem owes {writing : Writing} (hs : h.Sound) (hw : h.stream.writing = writing)
    (hg : writing ≠ .gone) : writing.Owes h.accepted h.received h.stream.channel := by
  subst hw
  exact (hs.phase.of_writing hg).1

theorem turn {turn : Turn} {n : Nat} (hs : h.Sound) (hw : h.stream.writing ≠ .gone)
    (hp : past <+: h.calls) (hc : turn.Continues t n h.stream.channel.listening)
    (ho : turn.writing.Owes (past.flatMap WriteCall.accepted ++ List.replicate n t) h.received
      turn.channel) :
    Sound { h.turned turn with calls := past ++ [⟨t, n, turn.answer⟩] } := by
  have ha : History.accepted { h.turned turn with calls := past ++ [⟨t, n, turn.answer⟩] } =
      past.flatMap WriteCall.accepted ++ List.replicate n t := by
    simp [History.accepted, WriteCall.accepted]
  obtain ⟨-, -, hV, hr⟩ := hs.phase.of_writing hw
  refine ⟨?_, hc.tracks past, hs.counts, ?_, ?_⟩
  · rw [ha]
    exact hs.phase.turn hw ho hc.listening
  · intro call hcall
    rcases List.mem_append.1 hcall with hcall | hcall
    · exact hs.calls call (hp.mem hcall)
    · exact List.mem_singleton.1 hcall ▸ hc.sound
  · intro call hcall hf
    rcases List.mem_append.1 hcall with hcall | hcall
    · exact hs.failed call (hp.mem hcall) hf
    · -- A write is refused only by a channel that nobody listens to any more.
      rw [List.mem_singleton.1 hcall] at hf
      exact ⟨show h.stream.reading = .gone by simpa [hc.deaf hf] using hr, hV⟩

theorem startWrite (hs : h.Sound) (hw : h.stream.writing = .idle w) (t : Token) :
    (h.step (.startWrite t)).Sound := by
  have ho := hs.owes hw nofun
  rw [step_startWrite hw]
  exact hs.turn (by simp [hw]) (List.prefix_refl _) (w.write_continues t _) (Writer.owes_write ho t)

theorem conclude {turn : Turn} {e : Ending} (hs : h.Sound) (hw : h.stream.writing ≠ .gone)
    (hc : turn.Concludes e h.accepted h.received h.stream.channel.listening) :
    (h.concluded turn e).Sound := by
  refine ⟨hs.phase.conclude hw hc, ?_, hs.counts, hs.calls, hs.failed⟩
  cases hc with
  | suspended w call _ _ hw hc =>
    rw [concluded, turned, hw]
    cases call <;> trivial
  | succeeded _ _ _ hw => rw [concluded, turned, hw]; trivial
  | refused _ _ _ hw => rw [concluded, turned, hw]; trivial

theorem close (hs : h.Sound) (hw : h.stream.writing = .idle w) : (h.step .close).Sound := by
  have ho := hs.owes hw nofun
  rw [step_close hw]
  exact hs.conclude (by simp [hw]) (Writer.concludes_close ho.closing)

theorem abort (hs : h.Sound) (hw : h.stream.writing = .idle w) (r : Reason) :
    (h.step (.abort r)).Sound := by
  have ho := hs.owes hw nofun
  rw [step_abort hw]
  exact hs.conclude (by simp [hw]) (Writer.concludes_abort ho r)

theorem pollWriter {call : Call} (hs : h.Sound) (hw : h.stream.writing = .busy w call) :
    (h.step .pollWriter).Sound := by
  have ho := hs.owes hw nofun
  have ht := hs.tracks
  rw [hw] at ht
  cases call with
  | write t =>
    -- The call that is polled has not been accepted yet, so that the others are all that counts.
    obtain ⟨past, hp⟩ := ht
    have hA : h.accepted = past.flatMap WriteCall.accepted := by
      simp [History.accepted, hp, WriteCall.accepted]
    rw [hA] at ho
    rw [step_pollWrite hw hp]
    exact hs.turn (by simp [hw]) (hp ▸ List.prefix_append _ _) (w.write_continues t _)
      (Writer.owes_write ho t)
  | settle =>
    obtain ⟨past, t, hp⟩ := ht
    have hA : h.accepted = past.flatMap WriteCall.accepted ++ List.replicate 1 t := by
      simp [History.accepted, hp, WriteCall.accepted]
    rw [hA] at ho
    rw [step_pollSettle hw hp]
    exact hs.turn (by simp [hw]) (hp ▸ List.prefix_append _ _) (w.settle_continues _ t)
      (Writer.owes_settle ho)
  | close =>
    rw [step_pollClose hw]
    exact hs.conclude (by simp [hw]) (Writer.concludes_close ho)
  | abort r =>
    rw [step_pollAbort hw]
    exact hs.conclude (by simp [hw]) (Writer.concludes_abortOn ho)

theorem released (hs : h.Sound) (hw : h.stream.writing ≠ .gone) : h.released.Sound :=
  ⟨hs.phase.release hw, trivial, hs.counts, hs.calls, hs.failed⟩

theorem cancelWriter {call : Call} (hs : h.Sound) (hw : h.stream.writing = .busy w call) :
    (h.step .cancelWriter).Sound := by
  rw [step_cancelWriter hw]
  by_cases hc : call.writes = true
  · rw [if_pos hc]
    have ho := hs.owes hw nofun
    obtain ⟨-, hE, hV, hr⟩ := hs.phase.of_writing (by simp [hw])
    have hi : (Writing.idle w).Owes h.accepted h.received h.stream.channel := by
      cases call <;> first | exact ho | contradiction
    exact ⟨.writing hi hE hV hr, trivial, hs.counts, hs.calls, hs.failed⟩
  · rw [if_neg hc]
    exact hs.released (by simp [hw])

theorem write (hs : h.Sound) (hw : h.stream.writing = .idle w) (t : Token) :
    (h.step (.write t)).Sound := by
  -- A write is one that is started and then cancelled, which does nothing if it has not suspended.
  have hs' := hs.startWrite hw t
  rw [step_write hw]
  cases hb : (h.step (.startWrite t)).stream.writing with
  | busy w' call => exact hs'.cancelWriter hb
  | idle w' => rwa [step_of_refuses .cancelWriter (by simp [refuses, hb])]
  | gone => rwa [step_of_refuses .cancelWriter (by simp [refuses, hb])]

theorem dropWriter (hs : h.Sound) (hw : h.stream.writing = .idle w) :
    (h.step .dropWriter).Sound := by
  rw [step_dropWriter hw]
  exact hs.released (by simp [hw])

/-- A write fails only once the reader is gone, so none has failed while it is there. -/
theorem read (hs : h.Sound) (hr : h.stream.reading ≠ .gone) {reading : Reading} {c : Channel}
    {R : List Token} {V : List Item}
    (hp : Phase h.accepted R h.endings V reading h.stream.writing c) (hc : reading.Counts R) :
    Sound { h with
      stream := { h.stream with reading, channel := c }, received := R, verdicts := V } :=
  ⟨hp, hs.tracks, hc, hs.calls, fun call hc hf => absurd (hs.failed call hc hf).1 hr⟩

theorem next (hs : h.Sound) (hr : h.stream.reading = .idle r) : (h.step .next).Sound := by
  have hg : h.stream.reading ≠ .gone := by simp [hr]
  have hc := hs.counts
  rw [hr] at hc
  rw [step_next hr]
  apply hs.read hg
  · exact (hs.phase.poll hg r h.stream.alone_iff).of_reading (by simp [hr])
  · rcases hp : r.poll h.stream.alone h.stream.channel with ⟨i, r', c, es⟩
    rw [Reading.Counts, Reader.poll_counts hp, List.length_append, hc]

theorem gathered {taken : List Token} (hs : h.Sound) (hr : h.stream.reading ≠ .gone)
    (hn : r.delivered = h.received.length) (ht : taken <:+ h.received) :
    (h.gathered r taken).Sound := by
  apply hs.read hr (hs.phase.collect hr r taken h.stream.alone_iff)
  rcases r.collect_cases h.stream.alone taken h.stream.channel with
    ⟨c', es, he⟩ | ⟨c', es, he⟩ | ⟨f, c', es, he⟩ <;> rw [he]
  · refine ⟨?_, ?_⟩
    · rw [List.length_append, hn]
    · obtain ⟨us, hu⟩ := ht
      exact ⟨us, by rw [← hu, List.append_assoc]⟩
  · trivial
  · trivial

theorem collect (hs : h.Sound) (hr : h.stream.reading = .idle r) : (h.step .collect).Sound := by
  have hc := hs.counts
  rw [hr] at hc
  rw [step_collect hr]
  exact hs.gathered (by simp [hr]) hc List.nil_suffix

theorem pollReader {taken : List Token} (hs : h.Sound)
    (hr : h.stream.reading = .collecting r taken) : (h.step .pollReader).Sound := by
  have hc := hs.counts
  rw [hr] at hc
  rw [step_pollReader hr]
  exact hs.gathered (by simp [hr]) hc.1 hc.2

theorem deafened (hs : h.Sound) (hr : h.stream.reading ≠ .gone) : h.deafened.Sound :=
  hs.read hr hs.phase.mute trivial

theorem step (hs : h.Sound) (op : Op) : (h.step op).Sound := by
  by_cases hf : h.stream.refuses op = true
  · rwa [step_of_refuses op hf]
  · -- What is left are the operations that find what they work on.
    unfold refuses at hf
    split at hf
    · next t w hw => exact hs.write hw t
    · next t w hw => exact hs.startWrite hw t
    · next w hw => exact hs.close hw
    · next r w hw => exact hs.abort hw r
    · next w hw => exact hs.dropWriter hw
    · next w call hw => exact hs.pollWriter hw
    · next w call hw => exact hs.cancelWriter hw
    · next r hr => exact hs.next hr
    · next r hr => exact hs.collect hr
    · next r hr => exact step_dropReader hr ▸ hs.deafened (by simp [hr])
    · next r taken hr => exact hs.pollReader hr
    · next r taken hr => exact step_cancelReader hr ▸ hs.deafened (by simp [hr])
    · exact absurd rfl hf

end Sound

theorem Reachable.sound {h : History} (hr : h.Reachable) : h.Sound := by
  induction hr with
  | start hs => exact sound_start hs
  | step op _ ih => exact ih.step op

end History

end Coalesce.Stream
