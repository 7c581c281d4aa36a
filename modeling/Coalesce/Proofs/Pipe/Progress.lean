import Coalesce.Proofs.Pipe.Flow

namespace Coalesce

open Coalesce.Stream

namespace Pipe

def polls (p : Pipe) (σ : List Side) : Pipe := σ.foldl poll p

theorem polls_cons (p : Pipe) (x : Side) (σ : List Side) : p.polls (x :: σ) = (p.poll x).polls σ :=
  rfl

theorem polls_append (p : Pipe) (σ τ : List Side) : p.polls (σ ++ τ) = (p.polls σ).polls τ :=
  List.foldl_append

def left (p : Pipe) : Side → List Op
  | .producer => p.producer
  | .consumer => p.consumer

/-- A side waits for the other: the channel is full and not all has been sent, or it is empty and
the producer has not finished. -/
def Waits (e : Ending) (p : Pipe) : Side → Prop
  | .producer => p.producer ≠ [] ∧ 0 < p.unsent e ∧ p.stream.channel.room = 0
  | .consumer => p.consumer ≠ [] ∧ p.producer ≠ [] ∧ p.buffered = 0

/-- The frames still to be sent, the frames still to be taken, and the sides that have not
finished. -/
def debt (e : Ending) (p : Pipe) : Nat :=
  2 * p.unsent e + p.buffered + (if p.producer = [] then 0 else 1) +
    (if p.consumer = [] then 0 else 1)

theorem isDone_iff (p : Pipe) : p.isDone = true ↔ p.producer = [] ∧ p.consumer = [] := by
  rw [isDone, Bool.and_eq_true, List.isEmpty_iff, List.isEmpty_iff]

theorem poll_of_left_nil {p : Pipe} {x : Side} (h : p.left x = []) : p.poll x = p := by
  cases x with
  | producer => exact poll_of_producer_nil h
  | consumer => exact poll_of_consumer_nil h

theorem room_eq (p : Pipe) : p.stream.channel.room = p.stream.channel.capacity - p.buffered := rfl

namespace Flow

variable {p : Pipe} {ts : List Token} {e : Ending}

theorem polls (h : Flow ts e p) (σ : List Side) : Flow ts e (p.polls σ) := by
  induction σ generalizing p with
  | nil => exact h
  | cons x σ ih => exact ih (h.poll x)

theorem capacity_pos (h : Flow ts e p) (hp : p.producer ≠ []) : 0 < p.stream.channel.capacity := by
  cases h with
  | flowing us Q D hn => exact hn
  | sent Q hf hp' => exact absurd hp' hp
  | done hf hp' => exact absurd hp' hp

theorem consumer_ne_nil (h : Flow ts e p) (hp : p.producer ≠ []) : p.consumer ≠ [] := by
  have hr := h.read_eq_pending_iff
  cases h with
  | flowing us Q D hn hf hp' hD hw hq hl hg hc hg' => exact hr.1 hg'
  | sent Q hf hp' => exact absurd hp' hp
  | done hf hp' => exact absurd hp' hp

theorem buffered_pos (h : Flow ts e p) (hp : p.Waits e .producer) : 0 < p.buffered := by
  have hn := h.capacity_pos hp.1
  have hr := hp.2.2
  rw [room_eq] at hr
  omega

/-- The two sides never wait for each other. -/
theorem not_waits_both {x y : Side} (h : Flow ts e p) (hxy : x ≠ y) (hx : p.Waits e x)
    (hy : p.Waits e y) : False := by
  have hboth : p.Waits e .producer ∧ p.Waits e .consumer := by
    cases x <;> cases y <;> first | exact absurd rfl hxy | exact ⟨hx, hy⟩ | exact ⟨hy, hx⟩
  have hb := h.buffered_pos hboth.1
  have hz := hboth.2.2.2
  omega

theorem waits_push (h : Flow ts e p) (hq : (p.poll .producer).producer ≠ []) :
    (p.poll .producer).Waits e .producer := by
  by_cases hp : p.producer = []
  · rw [poll_of_producer_nil hp] at hq
    exact absurd hp hq
  · obtain ⟨-, hcap, ⟨-, hnil, -⟩ | ⟨hlt, -, hu, hb⟩⟩ := (h.push hp).2
    · exact absurd hnil hq
    · -- A producer that suspends has used all the room there was.
      rw [room_eq] at hlt hu hb
      refine ⟨hq, by omega, ?_⟩
      rw [room_eq, hcap, hb]
      omega

theorem waits_pull (h : Flow ts e p) (hq : (p.poll .consumer).consumer ≠ []) :
    (p.poll .consumer).Waits e .consumer := by
  by_cases hc : p.consumer = []
  · rw [poll_of_consumer_nil hc] at hq
    exact absurd hc hq
  · have hpull := (h.pull hc).2
    refine ⟨hq, ?_, hpull.buffered⟩
    intro hp
    rw [hpull.producer] at hp
    exact hq (hpull.consumer.2 hp)

/-- A side that waits goes on waiting for as long as only it is polled, and nothing moves. -/
theorem waits_poll {x : Side} (h : Flow ts e p) (hw : p.Waits e x) :
    (p.poll x).Waits e x ∧ (p.poll x).buffered = p.buffered := by
  cases x with
  | producer =>
    obtain ⟨hp, hu, hr⟩ := hw
    obtain ⟨-, -, ⟨hle, -⟩ | ⟨-, hne, -, hb⟩⟩ := (h.push hp).2
    · omega
    · exact ⟨h.waits_push hne, by omega⟩
  | consumer =>
    obtain ⟨hc, hp, hb⟩ := hw
    have hpull := (h.pull hc).2
    have hne : (p.poll .consumer).consumer ≠ [] := fun hnil => hp (hpull.consumer.1 hnil)
    exact ⟨h.waits_pull hne, by rw [hpull.buffered, hb]⟩

theorem waits_polls {x : Side} (h : Flow ts e p) (hw : p.Waits e x) (k : Nat) :
    (p.polls (List.replicate k x)).Waits e x := by
  induction k generalizing p with
  | zero => exact hw
  | succ k ih => exact ih (h.poll x) (h.waits_poll hw).1

theorem pull_of_waits (h : Flow ts e p) (hw : p.Waits e .producer) :
    (p.poll .consumer).buffered < p.buffered := by
  rw [(h.pull (h.consumer_ne_nil hw.1)).2.buffered]
  exact h.buffered_pos hw

theorem push_of_waits (h : Flow ts e p) (hw : p.Waits e .consumer) :
    (p.poll .producer).producer = [] ∨ p.buffered < (p.poll .producer).buffered := by
  obtain ⟨-, hp, hb⟩ := hw
  have hn := h.capacity_pos hp
  obtain ⟨-, -, ⟨-, hnil, -⟩ | ⟨-, -, -, hb'⟩⟩ := (h.push hp).2
  · exact .inl hnil
  · right
    rw [room_eq] at hb'
    omega

theorem debt_push (h : Flow ts e p) (hp : p.producer ≠ []) :
    (p.poll .producer).debt e ≤ p.debt e ∧
    (¬ p.Waits e .producer → (p.poll .producer).debt e < p.debt e) := by
  obtain ⟨hc, -, ⟨-, hnil, hu, hb⟩ | ⟨hlt, hne, hu, hb⟩⟩ := (h.push hp).2
  · rw [debt, debt, hc, hu, hb, if_pos hnil, if_neg hp]
    omega
  · rw [debt, debt, hc, hu, hb, if_neg hne, if_neg hp]
    refine ⟨by omega, ?_⟩
    intro hw
    have hr : p.stream.channel.room ≠ 0 := fun hr => hw ⟨hp, by omega, hr⟩
    omega

theorem debt_pull (h : Flow ts e p) (hc : p.consumer ≠ []) :
    (p.poll .consumer).debt e ≤ p.debt e ∧
    (¬ p.Waits e .consumer → (p.poll .consumer).debt e < p.debt e) := by
  have hpull := (h.pull hc).2
  rw [debt, debt, hpull.producer, hpull.unsent, hpull.buffered, if_neg hc]
  by_cases hp : p.producer = []
  · rw [if_pos (hpull.consumer.2 hp)]
    omega
  · rw [if_neg fun hnil => hp (hpull.consumer.1 hnil)]
    refine ⟨by omega, ?_⟩
    intro hw
    have hb : p.buffered ≠ 0 := fun hb => hw ⟨hc, hp, hb⟩
    omega

theorem debt_poll_le (h : Flow ts e p) (x : Side) : (p.poll x).debt e ≤ p.debt e := by
  by_cases hx : p.left x = []
  · exact Nat.le_of_eq (by rw [poll_of_left_nil hx])
  · cases x with
    | producer => exact (h.debt_push hx).1
    | consumer => exact (h.debt_pull hx).1

theorem debt_poll_lt {x : Side} (h : Flow ts e p) (hx : p.left x ≠ []) (hw : ¬ p.Waits e x) :
    (p.poll x).debt e < p.debt e := by
  cases x with
  | producer => exact (h.debt_push hx).2 hw
  | consumer => exact (h.debt_pull hx).2 hw

theorem debt_polls_le (h : Flow ts e p) (σ : List Side) : (p.polls σ).debt e ≤ p.debt e := by
  induction σ generalizing p with
  | nil => exact Nat.le_refl _
  | cons x σ ih => exact Nat.le_trans (ih (h.poll x)) (h.debt_poll_le x)

theorem exists_ready (h : Flow ts e p) (hd : p.isDone = false) :
    ∃ x, p.left x ≠ [] ∧ ¬ p.Waits e x := by
  by_cases hp : p.producer = []
  · refine ⟨.consumer, ?_, fun hw => hw.2.1 hp⟩
    intro hc
    rw [(isDone_iff p).2 ⟨hp, hc⟩] at hd
    contradiction
  · by_cases hw : p.Waits e .producer
    · have hne : Side.producer ≠ .consumer := by decide
      exact ⟨.consumer, h.consumer_ne_nil hp, fun hw' => h.not_waits_both hne hw hw'⟩
    · exact ⟨.producer, hp, hw⟩

/-- What a side can do it can still do after the other was polled to no effect. -/
theorem ready_poll {x y : Side} (h : Flow ts e p) (hx : p.left x ≠ []) (hw : ¬ p.Waits e x)
    (hy : y ≠ x) (hd : p.left y = [] ∨ p.Waits e y) :
    (p.poll y).left x ≠ [] ∧ ¬ (p.poll y).Waits e x := by
  rcases hd with hn | hw'
  · rw [poll_of_left_nil hn]
    exact ⟨hx, hw⟩
  · -- A side that goes on waiting keeps the other from having to.
    have hq := (h.waits_poll hw').1
    refine ⟨?_, fun hx' => (h.poll y).not_waits_both hy hq hx'⟩
    cases x with
    | producer =>
      cases y with
      | producer => exact absurd rfl hy
      | consumer => exact hq.2.1
    | consumer =>
      cases y with
      | producer => exact (h.poll .producer).consumer_ne_nil hq.1
      | consumer => exact absurd rfl hy

/-- Polls of both sides get something done, in whatever order they come. -/
theorem debt_polls_lt (h : Flow ts e p) (hd : p.isDone = false) {σ : List Side}
    (hp : .producer ∈ σ) (hc : .consumer ∈ σ) : (p.polls σ).debt e < p.debt e := by
  -- Polls before that of a side that can go on either get something done themselves or leave it so.
  obtain ⟨x, hx, hw⟩ := h.exists_ready hd
  have hm : x ∈ σ := by cases x <;> assumption
  clear hp hc hd
  induction σ generalizing p with
  | nil => cases hm
  | cons y σ ih =>
    rw [polls_cons]
    by_cases hy : p.left y ≠ [] ∧ ¬ p.Waits e y
    · exact Nat.lt_of_le_of_lt ((h.poll y).debt_polls_le σ) (h.debt_poll_lt hy.1 hy.2)
    · have hne : y ≠ x := by
        rintro rfl
        exact hy ⟨hx, hw⟩
      obtain ⟨hx', hw'⟩ := h.ready_poll hx hw hne (by
        by_cases hn : p.left y = []
        · exact .inl hn
        · exact .inr (Classical.not_not.1 fun hw => hy ⟨hn, hw⟩))
      have hm' : x ∈ σ := (List.mem_cons.1 hm).resolve_left hne.symm
      exact Nat.lt_of_lt_of_le (ih (h.poll y) hx' hw' hm') (h.debt_poll_le y)

theorem poll_of_isDone (hd : p.isDone = true) (x : Side) : p.poll x = p := by
  rw [isDone_iff] at hd
  cases x with
  | producer => exact poll_of_producer_nil hd.1
  | consumer => exact poll_of_consumer_nil hd.2

theorem polls_of_isDone (hd : p.isDone = true) (σ : List Side) : p.polls σ = p := by
  induction σ with
  | nil => rfl
  | cons x σ ih => rw [polls_cons, poll_of_isDone hd, ih]

theorem isDone_rounds (h : Flow ts e p) {rounds : List (List Side)}
    (hr : ∀ σ ∈ rounds, .producer ∈ σ ∧ .consumer ∈ σ) (hn : p.debt e ≤ rounds.length) :
    (p.polls rounds.flatten).isDone = true := by
  induction rounds generalizing p with
  | nil =>
    cases hd : p.isDone with
    | true => exact hd
    | false =>
      have hlt := h.debt_polls_lt hd (σ := [.producer, .consumer]) (by simp) (by simp)
      rw [List.length_nil] at hn
      omega
  | cons σ rounds ih =>
    rw [List.flatten_cons, polls_append]
    cases hd : p.isDone with
    | true => rw [polls_of_isDone hd, polls_of_isDone hd, hd]
    | false =>
      obtain ⟨hp, hc⟩ := hr σ List.mem_cons_self
      have hlt := h.debt_polls_lt hd hp hc
      rw [List.length_cons] at hn
      exact ih (h.polls σ) (fun τ hτ => hr τ (List.mem_cons_of_mem σ hτ)) (by omega)

/-- Where the channel starts empty, a round ends with an empty channel and one frame less to send,
or with both sides finished. -/
theorem round (h : Flow ts e p) (hb : p.buffered = 0) :
    ((p.poll .producer).poll .consumer).isDone = true ∨
    ((p.poll .producer).poll .consumer).buffered = 0 ∧
      ((p.poll .producer).poll .consumer).unsent e < p.unsent e := by
  have h' := h.poll .producer
  by_cases hp : (p.poll .producer).producer = []
  · left
    rw [isDone_iff]
    by_cases hc : (p.poll .producer).consumer = []
    · rw [poll_of_consumer_nil hc]
      exact ⟨hp, hc⟩
    · have hpull := (h'.pull hc).2
      exact ⟨hpull.producer.trans hp, hpull.consumer.2 hp⟩
  · right
    have hp₀ : p.producer ≠ [] := fun hnil => hp (by rw [poll_of_producer_nil hnil, hnil])
    have hn := h.capacity_pos hp₀
    have hpull := (h'.pull (h'.consumer_ne_nil hp)).2
    refine ⟨hpull.buffered, ?_⟩
    rw [hpull.unsent]
    obtain ⟨-, -, ⟨-, hnil, -⟩ | ⟨hlt, -, hu, -⟩⟩ := (h.push hp₀).2
    · exact absurd hnil hp
    · rw [room_eq] at hlt hu
      omega

theorem alternate (h : Flow ts e p) (n : Nat) : Flow ts e (alternate n p) := by
  induction n generalizing p with
  | zero => exact h
  | succ n ih =>
    rw [Pipe.alternate]
    split
    · exact h
    · exact ih ((h.poll .producer).poll .consumer)

theorem isDone_alternate {n : Nat} (h : Flow ts e p) (hb : p.buffered = 0)
    (hn : p.unsent e < n) : (Pipe.alternate n p).isDone = true := by
  induction n generalizing p with
  | zero => omega
  | succ n ih =>
    rw [Pipe.alternate]
    cases hd : p.isDone with
    | true => exact hd
    | false =>
      -- A round that does not finish leaves a frame less to send.
      have h' := (h.poll .producer).poll .consumer
      rw [if_neg Bool.false_ne_true]
      rcases h.round hb with hd' | ⟨hb', hu'⟩
      · cases n with
        | zero => exact hd'
        | succ n => rwa [Pipe.alternate, hd', if_pos rfl]
      · exact ih h' hb' (by omega)

end Flow

section Start

variable {n : UInt64} {s : Stream}

theorem unsent_start_le (h : withCapacity n = .ok s) (ts : List Token) (e : Ending) :
    (start s ts e).unsent e ≤ ts.length + 1 := by
  have hf : (Writing.idle {}).Fits ts e := rfl
  have hts : (start s ts e).producer.filterMap unbegun? = ts := filterMap_agenda hf
  rw [unsent, hts, eq_of_withCapacity h]
  have hd := e.length_delivered_le ts
  have hm := e.length_marks_le
  rw [← Writer.due_empty] at hd
  have hl : (({} : Writer).script ts e).length =
      (({} : Writer).due ts e).length + e.marks.length := by
    rw [Writer.script, List.length_append, List.length_map]
  show (({} : Writer).script ts e).length ≤ ts.length + 1
  omega

theorem buffered_start (h : withCapacity n = .ok s) (ts : List Token) (e : Ending) :
    (start s ts e).buffered = 0 := by
  rw [eq_of_withCapacity h]
  rfl

theorem debt_start_le (h : withCapacity n = .ok s) (ts : List Token) (e : Ending) :
    (start s ts e).debt e ≤ 2 * ts.length + 4 := by
  have hu := unsent_start_le h ts e
  rw [debt, buffered_start h]
  split <;> split <;> omega

/-- However the two sides are polled, neither gets stuck, they finish, and what they answer depends
on the tokens and the ending alone. -/
theorem streaming (h : withCapacity n = .ok s) (ts : List Token) (e : Ending) (σ : List Side) :
    let p := (start s ts e).polls σ
    ((p.poll .producer).wrote = .pending → ∀ k,
      let q := (p.poll .producer).polls (List.replicate k .producer)
      (q.poll .consumer).buffered < q.buffered) ∧
    ((p.poll .consumer).read = .pending → ∀ k,
      let q := (p.poll .consumer).polls (List.replicate k .consumer)
      (q.poll .producer).producer = [] ∨ q.buffered < (q.poll .producer).buffered) ∧
    (∀ τ, .producer ∈ τ → .consumer ∈ τ → p.isDone = false → (p.polls τ).debt e < p.debt e) ∧
    (∀ rounds : List (List Side), (∀ τ ∈ rounds, .producer ∈ τ ∧ .consumer ∈ τ) →
      2 * ts.length + 4 ≤ rounds.length → (p.polls rounds.flatten).isDone = true) ∧
    (p.isDone = true → p.wrote = .ok ∧ p.read = e.answer ts) ∧
    (run s ts e).isDone = true ∧ (run s ts e).wrote = .ok ∧ (run s ts e).read = e.answer ts := by
  intro p
  have hstart := flow_start h ts e
  have hp : Flow ts e p := hstart.polls σ
  have hdone : (run s ts e).isDone = true :=
    hstart.isDone_alternate (buffered_start h ts e) (Nat.lt_succ_of_le (unsent_start_le h ts e))
  refine ⟨?_, ?_, ?_, ?_, hp.answers, hdone, ?_⟩
  · intro hw k q
    have hq := hp.poll .producer
    exact (hq.polls _).pull_of_waits
      (hq.waits_polls (hp.waits_push (hq.wrote_eq_pending_iff.1 hw)) k)
  · intro hr k q
    have hq := hp.poll .consumer
    exact (hq.polls _).push_of_waits
      (hq.waits_polls (hp.waits_pull (hq.read_eq_pending_iff.1 hr)) k)
  · intro τ hpτ hcτ hd
    exact hp.debt_polls_lt hd hpτ hcτ
  · intro rounds hr hn
    have hle := Nat.le_trans (hstart.debt_polls_le σ) (debt_start_le h ts e)
    exact hp.isDone_rounds hr (Nat.le_trans hle hn)
  · exact (hstart.alternate _).answers hdone

/-- One place for frames, which the flushed literal and the mark of the close both have to wait
for. -/
theorem streaming_close :
    let a : Token := ⟨.literal, "a", ⟨0, 1⟩⟩
    let b : Token := ⟨.literal, "b", ⟨1, 2⟩⟩
    let c : Token := ⟨.interpolation, "c", ⟨2, 3⟩⟩
    let d : Token := ⟨.literal, "d", ⟨3, 4⟩⟩
    let s : Stream := { channel := { capacity := 1 } }
    let p := (start s [a, b, c, d] .close).polls [.consumer, .producer, .consumer]
    withCapacity 1 = .ok s ∧ (p.poll .producer).wrote = .pending ∧
      ((p.poll .producer).poll .consumer).buffered < (p.poll .producer).buffered ∧
      (run s [a, b, c, d] .close).isDone = true ∧ (run s [a, b, c, d] .close).wrote = .ok ∧
      (run s [a, b, c, d] .close).read = .tokens [⟨.literal, "ab", ⟨0, 2⟩⟩, c, d] := by
  intro a b c d s p
  have hs : withCapacity 1 = .ok s := rfl
  have hw : (p.poll .producer).wrote = .pending := by decide +kernel
  obtain ⟨hpush, -, -, -, -, hdone, hok, hread⟩ :=
    streaming hs [a, b, c, d] .close [.consumer, .producer, .consumer]
  refine ⟨hs, hw, hpush hw 0, hdone, hok, ?_⟩
  rw [hread]
  decide +kernel

end Start

end Pipe

end Coalesce
