import Coalesce.Proofs.Stream.Refusal

namespace Coalesce.Stream

/-- The same frames in a channel for `n`. -/
def Channel.widen (c : Channel) (n : Nat) : Channel := { c with capacity := n }

def Turn.widen (t : Turn) (n : Nat) : Turn := { t with channel := t.channel.widen n }

def widen (s : Stream) (n : Nat) : Stream := { s with channel := s.channel.widen n }

def Step.widen (x : Step) (n : Nat) : Step := { x with stream := x.stream.widen n }

/-- No call holds the writer, and the channel has `n` places at most. -/
structure Slack (n : Nat) (writing : Writing) (c : Channel) : Prop where
  free : ∀ w call, writing ≠ .busy w call
  capacity : c.capacity ≤ n

variable {n : Nat}

theorem slack_idle (w : Writer) {c : Channel} (hc : c.capacity ≤ n) : Slack n (.idle w) c :=
  ⟨nofun, hc⟩

theorem slack_gone {c : Channel} (hc : c.capacity ≤ n) : Slack n .gone c := ⟨nofun, hc⟩

theorem Slack.cancel {writing : Writing} {c : Channel} (h : Slack n writing c) (d : Channel) :
    writing.cancel d = (writing, []) := by
  cases writing with
  | idle w => rfl
  | busy w call => exact absurd rfl (h.free w call)
  | gone => rfl

@[simp] theorem writing_widen (s : Stream) (n : Nat) : (s.widen n).writing = s.writing := rfl

@[simp] theorem reading_widen (s : Stream) (n : Nat) : (s.widen n).reading = s.reading := rfl

@[simp] theorem channel_widen (s : Stream) (n : Nat) :
    (s.widen n).channel = s.channel.widen n := rfl

@[simp] theorem alone_widen (s : Stream) (n : Nat) : (s.widen n).alone = s.alone := rfl

theorem Channel.room_le_widen {c : Channel} (hc : c.capacity ≤ n) : c.room ≤ (c.widen n).room :=
  Nat.sub_le_sub_right hc _

/-- A turn that leaves no call behind comes out the same with `n` places. -/
structure Turn.Same (n : Nat) (t t' : Turn) : Prop where
  slack : Slack n t.writing t.channel
  eq : t' = t.widen n

/-- What the writer does without suspending, it does in the same way with `n` places. -/
def Elastic (n : Nat) (act : Writer → Channel → Turn) : Prop :=
  ∀ w c, c.capacity ≤ n → (act w c).outcome ≠ none → Turn.Same n (act w c) (act w (c.widen n))

namespace Writer

theorem unload_congr {w : Writer} {k m : Nat} (hk : w.outbox.length ≤ k)
    (hm : w.outbox.length ≤ m) : w.unload k = w.unload m := by
  have ho : (w.outbox.take k).2 = (w.outbox.take m).2 :=
    (outbox_unload_of_le hk).trans (outbox_unload_of_le hm).symm
  rw [unload, unload, ho, Nat.min_eq_right hk, Nat.min_eq_right hm]

end Writer

namespace Elastic

variable {act : Writer → Channel → Turn}

theorem succeeded : Elastic n fun w c => .succeeded (.idle w) c :=
  fun w _ hc _ => ⟨slack_idle w hc, rfl⟩

theorem mark (f : Frame) (call : Call) (log : Writer → List Event) :
    Elastic n fun w c => w.mark f call (log w) c := by
  intro w c hc ho
  dsimp only at ho ⊢
  rcases w.mark_cases f call (log w) c with ⟨hl, hr, he⟩ | ⟨hl, hr, he⟩ | ⟨hl, he⟩ <;>
    rw [he] at ho ⊢
  · have hr' : 0 < (c.widen n).room := Nat.lt_of_lt_of_le hr (Channel.room_le_widen hc)
    refine ⟨slack_gone hc, ?_⟩
    rw [Writer.mark, Channel.send_of_room (c := c.widen n) hl hr']
    simp only [Turn.succeeded, Turn.after, List.append_nil]
    rfl
  · exact absurd rfl ho
  · refine ⟨slack_gone hc, ?_⟩
    exact w.mark_of_deaf f call (log w) (c := c.widen n) hl

/-- What fits in the places there are leaves the outbox as it does with more. -/
theorem drained (ha : Elastic n act) (call : Call) (left : Writer → Writing)
    (hf : ∀ w {c : Channel}, c.capacity ≤ n → Slack n (left w) c) :
    Elastic n fun w c => w.drained c call left act := by
  intro w c hc ho
  dsimp only at ho ⊢
  cases hl : c.listening with
  | true =>
    have hw := w.drained_of_listening (c := c.widen n) hl call left act
    rw [w.drained_of_listening hl] at ho ⊢
    by_cases hr : w.outbox.length ≤ c.room
    · have hr' := Nat.le_trans hr (Channel.room_le_widen hc)
      rw [if_pos hr', Writer.unload_congr hr' hr] at hw
      rw [if_pos hr] at ho ⊢
      rw [hw]
      exact ha _ _ hc ho
    · rw [if_neg hr] at ho
      exact absurd rfl ho
  | false =>
    have hw := w.drained_of_deaf (c := c.widen n) hl call left act
    rw [w.drained_of_deaf hl] at ho ⊢
    rw [hw]
    by_cases hz : w.outbox.length = 0
    · rw [if_pos hz] at ho ⊢
      rw [if_pos hz]
      exact ha w c hc ho
    · rw [if_neg hz, if_neg hz]
      exact ⟨hf w hc, rfl⟩

theorem comap (ha : Elastic n act) (g : Writer → Writer) : Elastic n fun w c => act (g w) c :=
  fun w => ha (g w)

theorem after (ha : Elastic n act) (es : Writer → List Event) :
    Elastic n fun w c => (act w c).after (es w) := by
  intro w c hc ho
  obtain ⟨hs, he⟩ := ha w c hc ho
  exact ⟨hs, congrArg (·.after (es w)) he⟩

theorem settle : Elastic n Writer.settle :=
  succeeded.drained .settle .idle slack_idle

theorem write (t : Token) : Elastic n fun w c => w.write t c :=
  (settle.comap (·.accept t)).drained (.write t) .idle slack_idle

theorem close : Elastic n Writer.close := by
  have hm : Elastic n fun w c => w.mark .closed .close [.closed w.written w.emitted] c :=
    mark .closed .close _
  have hf := hm.drained .close (fun _ => .gone) fun _ => slack_gone
  exact ((hf.comap (·.flush.1)).after (·.flush.2)).drained .close _ fun _ => slack_gone

theorem abort (r : Reason) : Elastic n fun w c => w.abort r c := by
  have hm : Elastic n fun w c => w.abortOn r c :=
    (mark (.aborted r) (.abort r) fun _ => []).drained (.abort r) _ fun _ => slack_gone
  exact (hm.comap fun w => { w with merger := w.merger.discard.2 }).after
    fun w => [.aborted r w.merger.discard.1]

theorem cancelled (ha : Elastic n act) : Elastic n fun w c =>
    { act w c with writing := ((act w c).writing.cancel (act w c).channel).1 } := by
  intro w c hc ho
  obtain ⟨hs, he⟩ := ha w c hc ho
  have hw : ((act w c).writing.cancel (act w c).channel).1 = (act w c).writing :=
    congrArg Prod.fst (hs.cancel _)
  have hw' : ((act w (c.widen n)).writing.cancel (act w (c.widen n)).channel).1 =
      (act w c).writing := by
    rw [he]
    exact congrArg Prod.fst (hs.cancel _)
  dsimp only
  rw [hw, hw', he]
  exact ⟨hs, rfl⟩

end Elastic

namespace Reader

theorem poll_widen {r r' : Reader} {alone : Bool} {c c' : Channel} {i : Item} {es : List Event}
    (h : r.poll alone c = (i, r', c', es)) :
    r.poll alone (c.widen n) = (i, r', c'.widen n, es) ∧ c'.capacity = c.capacity := by
  rcases r.poll_cases alone c with ⟨hl, he⟩ | ⟨hl, t, fs, hf, he⟩ | ⟨hl, fs, hf, he⟩ |
      ⟨hl, e, fs, hf, he⟩ | ⟨hl, hf, ha, he⟩ | ⟨hl, hf, ha, he⟩ <;>
    rw [he] at h <;> cases h <;> simp [poll, Channel.widen, Channel.mute, *]

theorem collect_widen {r : Reader} {alone : Bool} {taken : List Token} {c : Channel}
    {out : Option (Except Failure (List Token))} {reading : Reading} {c' : Channel}
    {es : List Event} (h : r.collect alone taken c = (out, reading, c', es)) :
    r.collect alone taken (c.widen n) = (out, reading, c'.widen n, es) ∧
      c'.capacity = c.capacity := by
  fun_induction collect r alone taken c generalizing out reading c' es with
  | case1 r taken c t r₁ c₁ es₁ hp out₂ s₂ c₂ es₂ hc ih =>
    obtain ⟨hw, hk⟩ := poll_widen (n := n) hp
    obtain ⟨hw₂, hk₂⟩ := ih hc
    cases h
    refine ⟨?_, hk₂.trans hk⟩
    rw [collect, hw]
    simp only [hw₂]
  | case2 r taken c r₁ c₁ es₁ hp =>
    obtain ⟨hw, hk⟩ := poll_widen (n := n) hp
    cases h
    rw [collect, hw]
    exact ⟨rfl, hk⟩
  | case3 r taken c f r₁ c₁ es₁ hp =>
    obtain ⟨hw, hk⟩ := poll_widen (n := n) hp
    cases h
    rw [collect, hw]
    exact ⟨rfl, hk⟩
  | case4 r taken c r₁ c₁ es₁ hp =>
    obtain ⟨hw, hk⟩ := poll_widen (n := n) hp
    cases h
    rw [collect, hw]
    exact ⟨rfl, hk⟩

end Reader

/-- A step that leaves no call of the writer behind comes out the same with `n` places. -/
structure Step.Same (n : Nat) (x x' : Step) : Prop where
  slack : Slack n x.stream.writing x.stream.channel
  eq : x' = x.widen n

variable {s : Stream}

theorem same_stay (h : Slack n s.writing s.channel) (a : Answer) :
    Step.Same n (s.stay a) ((s.widen n).stay a) := ⟨h, rfl⟩

theorem outcome_ne_none {t : Turn} (h : (s.ofTurn t).answer ≠ .pending) : t.outcome ≠ none := by
  intro ho
  rw [answer_ofTurn, Turn.answer, ho] at h
  exact h rfl

theorem same_withWriter {act act' : Writer → Step} (h : Slack n s.writing s.channel)
    (ha : ∀ w, s.writing = .idle w → Step.Same n (act w) (act' w)) :
    Step.Same n (s.withWriter act) ((s.widen n).withWriter act') := by
  rw [withWriter, withWriter, writing_widen]
  cases hs : s.writing with
  | idle w => exact ha w hs
  | busy w call => exact same_stay h _
  | gone => exact same_stay h _

theorem same_withReader {act act' : Reader → Step} (h : Slack n s.writing s.channel)
    (ha : ∀ r, s.reading = .idle r → Step.Same n (act r) (act' r)) :
    Step.Same n (s.withReader act) ((s.widen n).withReader act') := by
  rw [withReader, withReader, reading_widen]
  cases hs : s.reading with
  | idle r => exact ha r hs
  | collecting r taken => exact same_stay h _
  | gone => exact same_stay h _

theorem Elastic.same {act : Writer → Channel → Turn} (ha : Elastic n act)
    (h : Slack n s.writing s.channel)
    (hp : (s.withWriter fun w => s.ofTurn (act w s.channel)).answer ≠ .pending) :
    Step.Same n (s.withWriter fun w => s.ofTurn (act w s.channel))
      ((s.widen n).withWriter fun w => (s.widen n).ofTurn (act w (s.widen n).channel)) := by
  apply same_withWriter h
  intro w hw
  rw [withWriter, hw] at hp
  obtain ⟨hs, he⟩ := ha w s.channel h.capacity (outcome_ne_none hp)
  refine ⟨hs, ?_⟩
  rw [channel_widen, he]
  rfl

theorem same_next (h : Slack n s.writing s.channel) (r : Reader) :
    Step.Same n (s.ofItem (r.poll s.alone s.channel))
      ((s.widen n).ofItem (r.poll (s.widen n).alone (s.widen n).channel)) := by
  obtain ⟨hw, hk⟩ := Reader.poll_widen (n := n) (rfl : r.poll s.alone s.channel = _)
  refine ⟨⟨h.free, Nat.le_trans (Nat.le_of_eq hk) h.capacity⟩, ?_⟩
  rw [alone_widen, channel_widen, hw]
  rfl

theorem same_collectWith (h : Slack n s.writing s.channel) (r : Reader) (taken : List Token) :
    Step.Same n (s.collectWith r taken) ((s.widen n).collectWith r taken) := by
  obtain ⟨hw, hk⟩ := Reader.collect_widen (n := n) (rfl : r.collect s.alone taken s.channel = _)
  refine ⟨⟨h.free, Nat.le_trans (Nat.le_of_eq hk) h.capacity⟩, ?_⟩
  rw [collectWith, alone_widen, channel_widen, hw]
  rfl

theorem same_dropReader (h : Slack n s.writing s.channel) :
    Step.Same n s.dropReader (s.widen n).dropReader := ⟨⟨h.free, h.capacity⟩, rfl⟩

def Op.onWriter : Op → Bool
  | write _ | startWrite _ | close | abort _ => true
  | _ => false

/-- Only where it suspends does a step depend on the number of places. -/
theorem step_widen (h : Slack n s.writing s.channel) (op : Op)
    (hp : op.onWriter = true → (s.step op).answer ≠ .pending) :
    Step.Same n (s.step op) ((s.widen n).step op) := by
  cases op with
  | write t => exact (Elastic.write t).cancelled.same h (hp rfl)
  | startWrite t => exact (Elastic.write t).same h (hp rfl)
  | close => exact Elastic.close.same h (hp rfl)
  | abort r => exact (Elastic.abort r).same h (hp rfl)
  | pollWriter =>
    -- Nothing has suspended so far, so there is no call to poll, and none to cancel.
    rw [step, step, writing_widen]
    split
    · exact absurd ‹_› (h.free _ _)
    · exact same_stay h _
  | cancelWriter =>
    rw [step, step, cancelWriter, cancelWriter, writing_widen]
    split
    · exact absurd ‹_› (h.free _ _)
    · exact same_stay h _
  | dropWriter =>
    apply same_withWriter h
    intro w _
    exact ⟨slack_gone h.capacity, rfl⟩
  | next => exact same_withReader h fun r _ => same_next h r
  | collect => exact same_withReader h fun r _ => same_collectWith h r []
  | pollReader =>
    rw [step, step, reading_widen]
    split
    · exact same_collectWith h _ _
    · exact same_stay h _
  | cancelReader =>
    rw [step, step, reading_widen]
    split
    · exact same_dropReader h
    · exact same_stay h _
  | dropReader => exact same_withReader h fun _ _ => same_dropReader h

/-- No operation on the writer suspends. -/
def Unhindered (s : Stream) (ops : List Op) : Prop :=
  ∀ x ∈ ops.zip (s.run ops), x.1.onWriter = true → x.2.answer ≠ .pending

instance (s : Stream) (ops : List Op) : Decidable (Unhindered s ops) :=
  inferInstanceAs (Decidable (∀ x ∈ ops.zip (s.run ops), _))

theorem run_widen {ops : List Op} (h : Slack n s.writing s.channel) (hu : Unhindered s ops) :
    (s.widen n).run ops = (s.run ops).map (·.widen n) := by
  induction ops generalizing s with
  | nil => rfl
  | cons op ops ih =>
    obtain ⟨hop, hops⟩ := List.forall_mem_cons.1 hu
    have hs := step_widen h op hop
    -- No call is left behind, so the rest of the run starts as this step did.
    rw [run, run, List.map_cons, hs.eq]
    exact congrArg (List.cons _) (ih hs.slack hops)

/-- What can be seen of a step from outside. -/
structure View where
  answer : Answer
  hasPending : Option Bool
  written : Option Nat
  delivered : Option Nat
  isTerminated : Option Bool
  log : List Event
  deriving DecidableEq

def Step.view (x : Step) : View where
  answer := x.answer
  hasPending := x.stream.hasPending
  written := x.stream.written
  delivered := x.stream.delivered
  isTerminated := x.stream.isTerminated
  log := x.log

theorem Step.view_widen (x : Step) (n : Nat) : (x.widen n).view = x.view := rfl

/-- The capacity affects nothing but suspension: a run in which the writer never suspends looks the
same with a larger one, step by step. -/
theorem widening {m n : UInt64} {s s' : Stream} (hs : withCapacity m = .ok s)
    (hs' : withCapacity n = .ok s') (hle : m ≤ n) {ops : List Op} (hu : Unhindered s ops) :
    s.created = [.created (max m.toNat 1)] ∧ s'.created = [.created (max n.toNat 1)] ∧
      (s'.run ops).map Step.view = (s.run ops).map Step.view := by
  obtain rfl := eq_of_withCapacity hs
  obtain rfl := eq_of_withCapacity hs'
  refine ⟨rfl, rfl, ?_⟩
  have hmax : max m.toNat 1 ≤ max n.toNat 1 := by
    have := UInt64.le_iff_toNat_le.1 hle
    omega
  have h : Slack (max n.toNat 1) (.idle {}) { capacity := max m.toNat 1 } :=
    slack_idle {} hmax
  have hr : run { channel := { capacity := max n.toNat 1 } } ops =
      (run { channel := { capacity := max m.toNat 1 } } ops).map (·.widen (max n.toNat 1)) :=
    run_widen h hu
  have hv : Step.view ∘ (·.widen (max n.toNat 1)) = Step.view := funext fun x => x.view_widen _
  rw [hr, List.map_map, hv]

/-- Two places are enough for the two tokens that an interpolation sets free, and for a run that is
flushed and the mark behind it. -/
theorem widening_to_five :
    let a : Token := ⟨.literal, "a", ⟨0, 1⟩⟩
    let b : Token := ⟨.interpolation, "b", ⟨1, 2⟩⟩
    let c : Token := ⟨.literal, "c", ⟨2, 3⟩⟩
    let ops : List Op := [.write a, .write b, .next, .collect, .startWrite c, .close, .pollReader]
    let s : Stream := { channel := { capacity := 2 } }
    let s' : Stream := { channel := { capacity := 5 } }
    Unhindered s ops ∧ (s.run ops).map (·.answer) =
        [.ok, .ok, .token a, .pending, .ok, .ok, .tokens [b, c]] ∧
      s.created = [.created 2] ∧ s'.created = [.created 5] ∧
      (s'.run ops).map Step.view = (s.run ops).map Step.view := by
  intro a b c ops s s'
  have hu : Unhindered s ops := by decide +kernel
  have ha : (s.run ops).map (·.answer) =
      [.ok, .ok, .token a, .pending, .ok, .ok, .tokens [b, c]] := by decide +kernel
  exact ⟨hu, ha, widening (rfl : withCapacity 2 = _) (rfl : withCapacity 5 = _) (by decide) hu⟩

end Coalesce.Stream
