import Coalesce.Proofs.Stream.Agreement

namespace Coalesce.Stream

namespace Writer

/-- A write gets past its first drain exactly when there is room for the whole outbox. -/
theorem admits_of_listening (w : Writer) {c : Channel} (hl : c.listening = true) :
    w.admits c = if w.outbox.length ≤ c.room then 1 else 0 := by
  rw [admits, drain_of_listening w hl]
  by_cases ho : w.outbox.length ≤ c.room
  · simp only [if_pos ho]
    rfl
  · simp only [if_neg ho]
    rfl

theorem busy_of_pending {w : Writer} {t : Token} {c : Channel}
    (hp : (w.write t c).answer = .pending) :
    ∃ w' call, call.writes = true ∧ (w.write t c).writing = .busy w' call := by
  rcases w.write_writing t c with ⟨w', ho, -⟩ | hb
  · rw [Turn.answer] at hp
    split at hp <;> contradiction
  · exact hb

end Writer

theorem flatMap_accepted {calls : List WriteCall} (h : ∀ call ∈ calls, call.passes ≤ 1) :
    calls.flatMap WriteCall.accepted = (calls.filter (·.passes = 1)).map (·.token) := by
  induction calls with
  | nil => rfl
  | cons call calls ih =>
    have hc := h call List.mem_cons_self
    have ih := ih fun c hm => h c (List.mem_cons_of_mem call hm)
    rw [List.flatMap_cons, ih, WriteCall.accepted]
    by_cases hp : call.passes = 1
    · rw [hp, List.filter_cons_of_pos (by simpa using hp)]
      rfl
    · have hz : call.passes = 0 := by omega
      rw [hz, List.filter_cons_of_neg (by simpa using hp)]
      rfl

namespace History

variable {h : History} {w : Writer} {t : Token}

theorem accepted_startWrite (hw : h.stream.writing = .idle w) (t : Token) :
    (h.step (.startWrite t)).accepted =
      h.accepted ++ List.replicate (w.admits h.stream.channel) t := by
  rw [step_startWrite hw]
  simp [History.accepted, WriteCall.accepted]

theorem accepted_pollWriter (hs : h.Sound) (hw : h.stream.writing = .busy w (.write t)) :
    (h.step .pollWriter).accepted =
      h.accepted ++ List.replicate (w.admits h.stream.channel) t := by
  have ht := hs.tracks
  rw [hw] at ht
  obtain ⟨past, hp⟩ := ht
  rw [step_pollWrite hw hp]
  simp [History.accepted, WriteCall.accepted, hp]

theorem Sound.written_cancel {call : Call} (hs : h.Sound) (hw : h.stream.writing = .busy w call)
    (hc : call.writes = true) :
    (h.step .cancelWriter).stream.written = some h.accepted.length := by
  have ho := hs.owes hw nofun
  have hn : w.written = h.accepted.length := by
    cases call <;> exact ho.1
  rw [step_cancelWriter hw, if_pos hc]
  exact congrArg some hn

theorem Sound.written_of_turned {h' : History} (hs : h'.Sound)
    (hn : w.written = h.accepted.length) (hl : h.stream.channel.listening = true)
    (hp : (w.write t h.stream.channel).answer = .pending)
    (hw : h'.stream.writing = (w.write t h.stream.channel).writing)
    (ha : h'.accepted = h.accepted ++ List.replicate (w.admits h.stream.channel) t) :
    (h'.step .cancelWriter).stream.written =
      some (w.written + if w.outbox.length ≤ h.stream.channel.room then 1 else 0) := by
  obtain ⟨w', call, hc, hb⟩ := Writer.busy_of_pending hp
  rw [hs.written_cancel (hw.trans hb) hc, ha, List.length_append, List.length_replicate, ← hn,
    w.admits_of_listening hl]

theorem Sound.written_startWrite (hs : h.Sound) (hg : h.stream.reading ≠ .gone)
    (hw : h.stream.writing = .idle w) (hp : (h.stream.step (.startWrite t)).answer = .pending) :
    ((h.step (.startWrite t)).step .cancelWriter).stream.written =
      some (w.written + if w.outbox.length ≤ h.stream.channel.room then 1 else 0) := by
  have ho := hs.owes hw nofun
  obtain ⟨-, -, -, hl⟩ := hs.phase.of_writing (by simp [hw])
  have hp' : (w.write t h.stream.channel).answer = .pending := by
    rw [← hp, Stream.step, withWriter, hw]
    rfl
  have hw' : (h.step (.startWrite t)).stream.writing = (w.write t h.stream.channel).writing := by
    rw [step_startWrite hw]
    rfl
  have ha := accepted_startWrite hw t
  exact (hs.step (.startWrite t)).written_of_turned ho.1 (hl.2 hg) hp' hw' ha

theorem Sound.written_pollWriter (hs : h.Sound) (hg : h.stream.reading ≠ .gone)
    (hw : h.stream.writing = .busy w (.write t))
    (hp : (h.stream.step .pollWriter).answer = .pending) :
    ((h.step .pollWriter).step .cancelWriter).stream.written =
      some (w.written + if w.outbox.length ≤ h.stream.channel.room then 1 else 0) := by
  have ho := hs.owes hw nofun
  obtain ⟨-, -, -, hl⟩ := hs.phase.of_writing (by simp [hw])
  have ht := hs.tracks
  rw [hw] at ht
  have hp' : (w.write t h.stream.channel).answer = .pending := by
    rw [← hp, Stream.step, hw]
    rfl
  have hw' : (h.step .pollWriter).stream.writing = (w.write t h.stream.channel).writing := by
    obtain ⟨past, hc⟩ := ht
    rw [step_pollWrite hw hc]
    rfl
  have ha := accepted_pollWriter hs hw
  exact (hs.step .pollWriter).written_of_turned ho.1 (hl.2 hg) hp' hw' ha

theorem Sound.cancelled {call : Call} (hs : h.Sound) (hw : h.stream.writing = .busy w call)
    (hc : call.writes = true) :
    (h.step .cancelWriter).stream.written = some w.written ∧
    ∃ past t, h.calls = past ++ [⟨t, if call = .settle then 1 else 0, .pending⟩] := by
  have ht := hs.tracks
  rw [hw] at ht
  rw [step_cancelWriter hw, if_pos hc]
  refine ⟨rfl, ?_⟩
  cases call with
  | write t =>
    obtain ⟨past, hp⟩ := ht
    exact ⟨past, t, hp⟩
  | settle => exact ht
  | close => contradiction
  | abort r => contradiction

/-- What the reader has got once it is told of the end: the tokens of the calls that got past their
first drain. None of the others was told of a failure. -/
theorem Sound.received_of_ended (hs : h.Sound) (hv : h.verdicts.head? = some .ended) :
    h.endings = [.close] ∧
    (∀ call ∈ h.calls, call.answer = .ok ∧ call.passes = 1 ∨ call.answer = .pending) ∧
    h.received = compress ((h.calls.filter (·.passes = 1)).map (·.token)) := by
  have hne : h.verdicts ≠ [] := by
    intro hnil
    rw [hnil] at hv
    cases hv
  obtain ⟨e, k, hE, hV, hd⟩ := hs.phase.told_of_ne_nil hne
  rw [hV] at hv
  have he : e = .close := by
    cases e <;> first | rfl | cases hv
  subst he
  refine ⟨hE, ?_, ?_⟩
  · intro call hc
    have hcall := hs.calls call hc
    rcases hcall.answer with ha | ha | ha
    · exact .inl ⟨ha, hcall.passes_of_ok ha⟩
    · exact .inr ha
    · -- A write that failed found the reader gone, which then is never told anything.
      exact absurd (hs.failed call hc ha).2 hne
  · rw [← flatMap_accepted fun call hc => (hs.calls call hc).passes_le]
    exact hd

/-- A write that suspends and is cancelled has been accepted exactly if there was room for all that
earlier writes had left in the outbox: only then does its token go to the reader. -/
theorem cancellation (hr : h.Reachable) :
    (∀ w t, h.stream.reading ≠ .gone → h.stream.writing = .idle w →
      (h.stream.step (.startWrite t)).answer = .pending →
      ((h.step (.startWrite t)).step .cancelWriter).stream.written =
        some (w.written + if w.outbox.length ≤ h.stream.channel.room then 1 else 0)) ∧
    (∀ w t, h.stream.reading ≠ .gone → h.stream.writing = .busy w (.write t) →
      (h.stream.step .pollWriter).answer = .pending →
      ((h.step .pollWriter).step .cancelWriter).stream.written =
        some (w.written + if w.outbox.length ≤ h.stream.channel.room then 1 else 0)) ∧
    (∀ w call, h.stream.writing = .busy w call → call.writes = true →
      (h.step .cancelWriter).stream.written = some w.written ∧
      ∃ past t, h.calls = past ++ [⟨t, if call = .settle then 1 else 0, .pending⟩]) ∧
    (h.verdicts.head? = some .ended →
      h.endings = [.close] ∧
      (∀ call ∈ h.calls, call.answer = .ok ∧ call.passes = 1 ∨ call.answer = .pending) ∧
      h.received = compress ((h.calls.filter (·.passes = 1)).map (·.token))) := by
  have hs := hr.sound
  refine ⟨?_, ?_, ?_, hs.received_of_ended⟩
  · intro w t hg hw hp
    exact hs.written_startWrite hg hw hp
  · intro w t hg hw hp
    exact hs.written_pollWriter hg hw hp
  · intro w call hw hc
    exact hs.cancelled hw hc

/-- Three writes into one place, the second and third cancelled: the second has left its token in
the outbox, so that the third is not accepted, and its token never comes. -/
theorem cancellation_twice :
    let a : Token := ⟨.interpolation, "a", ⟨1, 2⟩⟩
    let b : Token := ⟨.interpolation, "b", ⟨4, 5⟩⟩
    let c : Token := ⟨.interpolation, "c", ⟨7, 8⟩⟩
    let start : History := { stream := { channel := { capacity := 1 } } }
    let h := start.run [.write a, .write b]
    let h' := start.run
      [.write a, .write b, .write c, .next, .close, .next, .pollWriter, .next]
    h.stream.writing = .idle ⟨{}, ⟨none, some b⟩, 2, 1⟩ ∧
      (h.stream.step (.startWrite c)).answer = .pending ∧
      ((h.step (.startWrite c)).step .cancelWriter).stream.written = some 2 ∧
      h'.verdicts = [.ended] ∧ h'.endings = [.close] ∧
      h'.calls = [⟨a, 1, .ok⟩, ⟨b, 1, .pending⟩, ⟨c, 0, .pending⟩] ∧
      h'.received = [a, b] ∧ h'.received ≠ compress (h'.calls.map (·.token)) := by
  intro a b c start h h'
  have hr : start.Reachable := .start (rfl : withCapacity 1 = _)
  have hw : h.stream.writing = .idle ⟨{}, ⟨none, some b⟩, 2, 1⟩ := by decide +kernel
  have hg : h.stream.reading ≠ .gone := by decide +kernel
  have hp : (h.stream.step (.startWrite c)).answer = .pending := by decide +kernel
  have hn := (cancellation (hr.run [.write a, .write b])).1 _ c hg hw hp
  have hv : h'.verdicts = [.ended] := by decide +kernel
  have hc : h'.calls = [⟨a, 1, .ok⟩, ⟨b, 1, .pending⟩, ⟨c, 0, .pending⟩] := by decide +kernel
  obtain ⟨hE, -, hR⟩ := (cancellation (hr.run
    [.write a, .write b, .write c, .next, .close, .next, .pollWriter, .next])).2.2.2
    (congrArg List.head? hv)
  rw [hc] at hR
  have hR' : h'.received = [a, b] := hR.trans (by decide +kernel)
  refine ⟨hw, hp, hn.trans (by decide +kernel), hv, hE, hc, hR', ?_⟩
  rw [hR', hc]
  decide +kernel

end History

end Coalesce.Stream
