import Coalesce.Proofs.Stream.Sound

namespace Coalesce.Stream

def Op.reads : Op → Bool
  | .next | .collect | .pollReader => true
  | _ => false

theorem Turn.answer_cases (t : Turn) :
    t.answer = .pending ∨ t.answer = .ok ∨ ∃ f, t.answer = .failed f := by
  unfold Turn.answer
  split
  · exact .inl rfl
  · exact .inr (.inl rfl)
  · exact .inr (.inr ⟨_, rfl⟩)

theorem answer_of_not_reads {s : Stream} {op : Op} (h : op.reads = false) :
    (∀ t, (s.step op).answer ≠ .token t) ∧ ∀ ts, (s.step op).answer ≠ .tokens ts := by
  have hturn : ∀ turn : Turn, (∀ t, turn.answer ≠ .token t) ∧ ∀ ts, turn.answer ≠ .tokens ts := by
    intro turn
    rcases turn.answer_cases with ha | ha | ⟨f, ha⟩ <;> rw [ha] <;> exact ⟨nofun, nofun⟩
  cases op <;> cases hw : s.writing <;> cases hr : s.reading <;>
    simp_all [Op.reads, Stream.step, withWriter, withReader, stay, Stream.cancelWriter,
      Stream.dropReader]

theorem collectWith_answer {s : Stream} {r : Reader} {taken R : List Token} (ht : taken <:+ R) :
    (∀ t, (s.collectWith r taken).answer ≠ .token t) ∧
    ∀ ts, (s.collectWith r taken).answer = .tokens ts → ts <:+ R ++ r.drawn s.alone s.channel := by
  unfold collectWith
  rcases r.collect_cases s.alone taken s.channel with
    ⟨c', es, he⟩ | ⟨c', es, he⟩ | ⟨f, c', es, he⟩ <;> rw [he]
  · exact ⟨nofun, nofun⟩
  · refine ⟨nofun, ?_⟩
    rintro ts ⟨⟩
    obtain ⟨us, hu⟩ := ht
    exact ⟨us, by rw [← hu, List.append_assoc]⟩
  · exact ⟨nofun, nofun⟩

namespace History

theorem Sound.received_of_answer {h : History} (hs : h.Sound) (op : Op) :
    (∀ t, (h.stream.step op).answer = .token t → (h.step op).received = h.received ++ [t]) ∧
    ∀ ts, (h.stream.step op).answer = .tokens ts → ts <:+ (h.step op).received := by
  have hc := hs.counts
  cases hb : op.reads with
  | false =>
    -- The other operations answer with no token at all.
    obtain ⟨ht, hts⟩ := answer_of_not_reads (s := h.stream) hb
    exact ⟨fun t ha => absurd ha (ht t), fun ts ha => absurd ha (hts ts)⟩
  | true =>
    cases hr : h.stream.reading with
    | idle r =>
      cases op <;> cases hb
      · rw [step_next hr]
        rcases hp : r.poll h.stream.alone h.stream.channel with ⟨i, r', c, es⟩
        cases i <;> simp [Stream.step, withReader, hr, ofItem, hp, Item.taken]
      · have hnil : [] <:+ h.received := List.nil_suffix
        obtain ⟨hn, hl⟩ := collectWith_answer (s := h.stream) (r := r) hnil
        rw [step_collect hr, Stream.step, withReader, hr]
        exact ⟨fun t ha => absurd ha (hn t), hl⟩
      · simp [Stream.step, hr, stay]
    | collecting r taken =>
      rw [hr] at hc
      cases op <;> cases hb
      · simp [Stream.step, withReader, hr, stay]
      · simp [Stream.step, withReader, hr, stay]
      · obtain ⟨hn, hl⟩ := collectWith_answer (s := h.stream) (r := r) hc.2
        rw [step_pollReader hr, Stream.step, hr]
        exact ⟨fun t ha => absurd ha (hn t), hl⟩
    | gone => cases op <;> cases hb <;> simp [Stream.step, withReader, hr, stay]

end History

/-- Where the tokens `A` that were accepted are, of which `R` were received and `Q` wait in the
channel: with the writer there, none is missing; with the writer gone, none is changed. -/
def Writing.Conserves (A R Q : List Token) : Writing → Prop
  | idle w | busy w (.write _) | busy w .settle | busy w .close =>
    w.written = A.length ∧ R ++ Q ++ w.outbox.toList ++ w.merger.held = compress A
  | busy w (.abort _) =>
    w.written = A.length ∧ R ++ Q ++ w.outbox.toList = dropLastLiteral (compress A)
  | gone => R ++ Q <+: compress A

theorem Writing.Owes.conserves {A R : List Token} {c : Channel} {writing : Writing}
    (h : writing.Owes A R c) : writing.Conserves A R c.tokens := by
  have hidle : ∀ {w : Writer}, (idle w).Owes A R c → (idle w).Conserves A R c.tokens := by
    rintro w ⟨hn, hm, hb⟩
    exact ⟨hn, by rw [hb.line, hm, compress_eq_final]⟩
  rcases writing with w | ⟨w, t | _ | _ | r⟩ | _
  · exact hidle h
  · exact hidle h
  · exact hidle h
  · obtain ⟨hn, X, hb, hX⟩ := h
    exact ⟨hn, by rw [hb.line, hX]⟩
  · exact ⟨h.1, by rw [h.2.line, dropLastLiteral_compress]⟩
  · exact h.elim

theorem Phase.conserves {A R : List Token} {E : List Ending} {V : List Item} {reading : Reading}
    {writing : Writing} {c : Channel} (h : Phase A R E V reading writing c)
    (hr : reading ≠ .gone) : writing.Conserves A R c.tokens := by
  cases h with
  | writing hw => exact hw.conserves
  | ended e hw hE hV hl _ hf hd =>
    rw [hw]
    exact hd.prefix_compress
  | told e k hw hE hV hl hf hd =>
    rw [hw, Writing.Conserves, Channel.tokens, hf, List.filterMap_nil, List.append_nil]
    exact hd.prefix_compress
  | abandoned hw hV hl hg => exact absurd hg hr

/-- In every run no token is lost, none is given twice, and none overtakes another. -/
theorem conservation {h : History} (hr : h.Reachable) :
    (∀ call ∈ h.calls, call.passes ≤ 1 ∧ (call.answer = .ok → call.passes = 1)) ∧
    (h.stream.reading ≠ .gone →
      h.stream.writing.Conserves h.accepted h.received h.stream.channel.tokens) ∧
    h.received <+: compress h.accepted ∧ h.stream.reading.Counts h.received ∧
    ∀ op, (∀ t, (h.stream.step op).answer = .token t → (h.step op).received = h.received ++ [t]) ∧
      ∀ ts, (h.stream.step op).answer = .tokens ts → ts <:+ (h.step op).received := by
  have hs := hr.sound
  refine ⟨?_, hs.phase.conserves, hs.phase.prefix_compress, hs.counts, hs.received_of_answer⟩
  intro call hc
  exact ⟨(hs.calls call hc).passes_le, (hs.calls call hc).passes_of_ok⟩

/-- One place for frames, and a write that is cancelled once its token has been accepted: of four
tokens one was received, one waits, and two are held. -/
theorem conservation_crowded :
    let a : Token := ⟨.interpolation, "a", ⟨0, 1⟩⟩
    let b : Token := ⟨.interpolation, "b", ⟨1, 2⟩⟩
    let c : Token := ⟨.literal, "c", ⟨2, 3⟩⟩
    let d : Token := ⟨.interpolation, "d", ⟨3, 4⟩⟩
    let h := ({ stream := { channel := { capacity := 1 } } } : History).run
      [.write a, .write b, .next, .write c, .startWrite d]
    h.accepted = [a, b, c, d] ∧ h.received = [a] ∧ h.stream.channel.tokens = [b] ∧
      h.stream.writing = .busy ⟨{}, ⟨some c, some d⟩, 4, 2⟩ .settle ∧
      h.stream.writing.Conserves h.accepted h.received h.stream.channel.tokens := by
  intro a b c d h
  have hr : h.Reachable := (History.Reachable.start (rfl : withCapacity 1 = _)).run _
  have hg : h.stream.reading ≠ .gone := by decide +kernel
  exact ⟨by decide +kernel, by decide +kernel, by decide +kernel, by decide +kernel,
    (conservation hr).2.1 hg⟩

end Coalesce.Stream
