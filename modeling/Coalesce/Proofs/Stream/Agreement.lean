import Coalesce.Proofs.Stream.Sound

namespace Coalesce

namespace Stream

theorem collectVerdict_outcome (e : Ending) (ts : List Token) :
    collectVerdict (some (e.outcome ts)) = [e.seen] := by
  cases e <;> rfl

namespace History

variable {h : History} {r : Reader} {e : Ending} {ts : List Token}

theorem run_next_of_deaf (hr : h.stream.reading = .idle r)
    (hl : h.stream.channel.listening = false) (k : Nat) :
    h.run (List.replicate k .next) =
      { h with verdicts := h.verdicts ++ List.replicate k .ended } := by
  induction k generalizing h with
  | zero => simp [History.run]
  | succ k ih =>
    have hn : h.step .next = { h with verdicts := h.verdicts ++ [.ended] } := by
      rw [step_next hr, r.poll_of_deaf hl]
      simp [Item.taken, Item.verdict, ← hr]
    have hrest := ih (h := { h with verdicts := h.verdicts ++ [.ended] }) hr hl
    rw [List.replicate_succ, run_cons, hn, hrest]
    simp [List.replicate_succ]

theorem run_next_of_marks (hw : h.stream.writing = .gone) (hr : h.stream.reading = .idle r)
    (hl : h.stream.channel.listening = true)
    (hf : h.stream.channel.frames = ts.map .token ++ e.marks) (k : Nat) :
    (h.run (List.replicate k .next)).received = h.received ++ ts.take k ∧
    (h.run (List.replicate k .next)).verdicts =
      h.verdicts ++
        if k ≤ ts.length then [] else e.seen :: List.replicate (k - ts.length - 1) .ended := by
  have ha : h.stream.alone = true := h.stream.alone_iff.2 hw
  -- On the polls: the first takes the first token, or is told, and the others find the rest.
  induction k generalizing h r ts with
  | zero => simp [History.run]
  | succ k ih =>
    have hn := step_next hr
    rw [ha] at hn
    rw [List.replicate_succ, run_cons]
    cases ts with
    | nil =>
      obtain ⟨es, hp⟩ := r.poll_of_marks hl hf
      have hv : e.seen.verdict = [e.seen] := by cases e <;> rfl
      have ht : e.seen.taken = [] := by cases e <;> rfl
      rw [hn, hp, run_next_of_deaf rfl rfl]
      simp [hv, ht]
    | cons t ts =>
      rw [r.poll_of_token hl hf] at hn
      obtain ⟨hR, hV⟩ := ih (h := h.step .next) (by rw [hn]; exact hw) (by rw [hn])
        (by rw [hn]; exact hl) (by rw [hn]; rfl) (by rw [hn]; exact ha)
      rw [hR, hV, hn]
      simp [Item.taken, Item.verdict]

end History

namespace Phase

variable {A R : List Token} {E : List Ending} {V : List Item} {reading : Reading}
  {writing : Writing} {c : Channel}

/-- The reader is told of the one ending that there was, and then of nothing but the end. -/
theorem told_of_ne_nil (h : Phase A R E V reading writing c) (hV : V ≠ []) :
    ∃ e k, E = [e] ∧ V = e.seen :: List.replicate k .ended ∧ e.Delivers A R := by
  cases h with
  | writing hw hE hV' => exact absurd hV' hV
  | ended e hw hE hV' => exact absurd hV' hV
  | told e k hw hE hV' hl hf hd => exact ⟨e, k, hE, hV', hd⟩
  | abandoned hw hV' => exact absurd hV' hV

theorem ended_of_mem (h : Phase A R E V reading writing c) (hV : V = []) (hr : reading ≠ .gone)
    {e : Ending} (he : e ∈ E) :
    writing = .gone ∧ c.listening = true ∧ c.frames = c.tokens.map .token ++ e.marks := by
  cases h with
  | writing hw hE => simp [hE] at he
  | ended e' hw hE hV' hl _ hf =>
    obtain rfl : e = e' := by simpa [hE] using he
    exact ⟨hw, hl, hf⟩
  | told e k hw hE hV' => simp [hV] at hV'
  | abandoned hw hV' hl hg => exact absurd hg hr

end Phase

namespace History

variable {h : History} {r : Reader} {e : Ending}

theorem gathered_of_marks {ts : List Token} (taken : List Token) (hw : h.stream.writing = .gone)
    (hl : h.stream.channel.listening = true)
    (hf : h.stream.channel.frames = ts.map .token ++ e.marks) :
    (h.gathered r taken).received = h.received ++ ts ∧
    (h.gathered r taken).verdicts = h.verdicts ++ [e.seen] := by
  obtain ⟨hd, es, hc⟩ := r.collect_of_marks hl hf taken
  have ha : h.stream.alone = true := h.stream.alone_iff.2 hw
  rw [gathered, ha, hc, hd, collectVerdict_outcome]
  exact ⟨rfl, rfl⟩

theorem Reachable.isTerminated_iff (hr : h.Reachable) {b : Bool}
    (hb : h.stream.isTerminated = some b) : b = true ↔ h.verdicts ≠ [] := by
  rw [isTerminated, reader?] at hb
  cases hg : h.stream.reading with
  | idle r =>
    have hl := hr.sound.phase.listening_iff (by simp [hg])
    rw [hg] at hb
    obtain rfl : (!h.stream.channel.listening) = b := by simpa using hb
    rw [ne_eq, ← hl, Bool.not_eq_true, Bool.not_eq_true']
  | collecting r taken => simp [hg] at hb
  | gone => simp [hg] at hb

/-- What a reader that is there is told first tells how the writing ended and what was delivered,
and each way to end is what the reader is told once it has taken the tokens that wait. -/
theorem agreement (hr : h.Reachable) :
    (∀ v ∈ h.verdicts.head?, ∃ e, h.endings = [e] ∧ v = e.seen ∧
      e.Delivers h.accepted h.received) ∧
    (∀ v ∈ h.verdicts.tail, v = .ended) ∧
    (∀ b ∈ h.stream.isTerminated, (b = true ↔ h.verdicts ≠ [])) ∧
    ∀ e ∈ h.endings, h.verdicts = [] →
      (∀ r, h.stream.reading = .idle r →
        (∀ k, (h.run (List.replicate k .next)).received =
            h.received ++ h.stream.channel.tokens.take k ∧
          (h.run (List.replicate k .next)).verdicts =
            if k ≤ h.stream.channel.tokens.length then []
            else e.seen :: List.replicate (k - h.stream.channel.tokens.length - 1) .ended) ∧
        (h.step .collect).received = h.received ++ h.stream.channel.tokens ∧
        (h.step .collect).verdicts = [e.seen]) ∧
      ∀ r taken, h.stream.reading = .collecting r taken →
        (h.step .pollReader).received = h.received ++ h.stream.channel.tokens ∧
        (h.step .pollReader).verdicts = [e.seen] := by
  have hp := hr.sound.phase
  refine ⟨?_, ?_, fun b hb => hr.isTerminated_iff hb, ?_⟩
  · intro v hv
    obtain ⟨e, k, hE, hV, hd⟩ := hp.told_of_ne_nil (by rintro h; simp [h] at hv)
    rw [hV] at hv
    exact ⟨e, hE, (Option.some.inj hv).symm, hd⟩
  · intro v hv
    obtain ⟨e, k, -, hV, -⟩ := hp.told_of_ne_nil (by rintro h; simp [h] at hv)
    rw [hV] at hv
    exact List.eq_of_mem_replicate hv
  · intro e he hV
    refine ⟨?_, ?_⟩
    · intro r hg
      obtain ⟨hw, hl, hf⟩ := hp.ended_of_mem hV (by simp [hg]) he
      have hn := run_next_of_marks hw hg hl hf
      have hc := gathered_of_marks (r := r) [] hw hl hf
      rw [hV, List.nil_append] at hc
      simp only [hV, List.nil_append] at hn
      rw [step_collect hg]
      exact ⟨hn, hc⟩
    · intro r taken hg
      obtain ⟨hw, hl, hf⟩ := hp.ended_of_mem hV (by simp [hg]) he
      have hc := gathered_of_marks (r := r) taken hw hl hf
      rw [hV, List.nil_append] at hc
      rw [step_pollReader hg]
      exact hc

/-- An abort that had to wait for a place, with a run open and one token not yet taken: the reader
takes it and is told of the abort, and the run is never seen. -/
theorem agreement_aborted :
    let a : Token := ⟨.interpolation, "a", ⟨0, 1⟩⟩
    let b : Token := ⟨.interpolation, "b", ⟨1, 2⟩⟩
    let c : Token := ⟨.literal, "c", ⟨2, 3⟩⟩
    let e : Ending := .abort ⟨"lost", []⟩
    let h := ({ stream := { channel := { capacity := 2 } } } : History).run
      [.write a, .write b, .write c, .abort ⟨"lost", []⟩, .next, .pollWriter]
    let h' := h.run (List.replicate 2 .next)
    h.endings = [e] ∧ h.verdicts = [] ∧ h.stream.reading = .idle ⟨1⟩ ∧
      h.stream.channel.tokens = [b] ∧
      h'.received = [a] ++ [b].take 2 ∧ h'.verdicts = [e.seen] ∧
      h'.accepted = [a, b, c] ∧ ∃ e', h'.endings = [e'] ∧ e.seen = e'.seen ∧
        e'.Delivers h'.accepted h'.received := by
  intro a b c e h h'
  have hr : h.Reachable := (Reachable.start (rfl : withCapacity 2 = _)).run _
  have he : h.endings = [e] := by decide +kernel
  have hv : h.verdicts = [] := by decide +kernel
  have hg : h.stream.reading = .idle ⟨1⟩ := by decide +kernel
  have hq : h.stream.channel.tokens = [b] := by decide +kernel
  obtain ⟨-, -, -, hc⟩ := agreement hr
  obtain ⟨hR, hV⟩ := (hc e (by simp [he]) hv).1 ⟨1⟩ hg |>.1 2
  have hV' : h'.verdicts = [e.seen] := by rw [hV, hq]; rfl
  refine ⟨he, hv, hg, hq, ?_, hV', by decide +kernel, ?_⟩
  · rw [hR, hq, show h.received = [a] by decide +kernel]
  · exact (agreement (hr.run _)).1 e.seen (by rw [hV']; rfl)

end History

end Stream

end Coalesce
