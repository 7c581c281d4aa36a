import Coalesce.Proofs.Emission

namespace Coalesce

namespace Merger

/-- An operation on a merger. Of the tokens that a push makes final, at most `n` are taken, and the
others are lost. -/
inductive Op where
  | push (t : Token) (n : Nat)
  | finish
  | discard
  deriving DecidableEq

inductive Reply where
  | emitted (taken : List Token) (left : Emitted)
  | finished (t : Option Token)
  | discarded (wasPending : Bool)
  deriving DecidableEq

/-- The operation with all tokens taken, of which a push makes two final at most. -/
def Op.whole : Op → Op
  | push t _ => push t 2
  | op => op

def Reply.whole : Reply → Reply
  | emitted taken left => emitted (taken ++ left.toList) {}
  | r => r

def Reply.tokens : Reply → List Token
  | emitted taken left => taken ++ left.toList
  | finished t => t.toList
  | discarded _ => []

def step (m : Merger) : Op → Reply × Merger
  | .push t n => (.emitted ((m.push t).1.take n).1 ((m.push t).1.take n).2, (m.push t).2)
  | .finish => (.finished m.finish.1, m.finish.2)
  | .discard => (.discarded m.discard.1, m.discard.2)

def run (m : Merger) : List Op → List Reply × Merger
  | [] => ([], m)
  | op :: ops => ((m.step op).1 :: ((m.step op).2.run ops).1, ((m.step op).2.run ops).2)

/-- Tokens that were pushed one after the other, up to a finish or a discard. -/
structure Segment where
  tokens : List Token
  finished : Bool

def Segment.output (s : Segment) : List Token :=
  if s.finished then compress s.tokens else dropLastLiteral (compress s.tokens)

/-- The segments that operations end, of which the first has begun with `ts`, and the tokens of the
one that they leave open. -/
def segments (ts : List Token) : List Op → List Segment × List Token
  | [] => ([], ts)
  | .push t _ :: ops => segments (ts ++ [t]) ops
  | .finish :: ops => (⟨ts, true⟩ :: (segments [] ops).1, (segments [] ops).2)
  | .discard :: ops => (⟨ts, false⟩ :: (segments [] ops).1, (segments [] ops).2)

end Merger

namespace Emitted

theorem take_two (e : Emitted) : e.take 2 = (e.toList, {}) := by
  rcases e with ⟨_ | _, _ | _⟩ <;> rfl

theorem take_append_left (e : Emitted) (n : Nat) :
    (e.take n).1 ++ (e.take n).2.toList = e.toList := by
  rw [(take_eq n e).1, (take_eq n e).2, List.take_append_drop]

theorem length_take (e : Emitted) (n : Nat) :
    (e.take n).1.length = min n e.length ∧ (e.take n).2.length = e.length - n := by
  constructor
  · rw [(take_eq n e).1, List.length_take, length_toList]
  · rw [← length_toList, (take_eq n e).2, List.length_drop, length_toList]

end Emitted

namespace Merger

variable {ts : List Token}

theorem after_nil : Merger.after [] = {} := rfl

theorem step_push (ts : List Token) (t : Token) (n : Nat) :
    final ts ++ ((Merger.after ts).step (.push t n)).1.tokens = final (ts ++ [t]) ∧
      ((Merger.after ts).step (.push t n)).2 = .after (ts ++ [t]) := by
  rw [final_concat, Merger.after_concat, step, Reply.tokens, Emitted.take_append_left]
  exact ⟨rfl, rfl⟩

theorem step_finish (ts : List Token) :
    final ts ++ ((Merger.after ts).step .finish).1.tokens = Segment.output ⟨ts, true⟩ ∧
      ((Merger.after ts).step .finish).2 = .after [] :=
  ⟨(compress_eq_final ts).symm, rfl⟩

theorem step_discard (ts : List Token) :
    final ts ++ ((Merger.after ts).step .discard).1.tokens = Segment.output ⟨ts, false⟩ ∧
      ((Merger.after ts).step .discard).2 = .after [] := by
  refine ⟨?_, rfl⟩
  rw [step, Reply.tokens, List.append_nil]
  exact (dropLastLiteral_compress ts).symm

/-- A merger that has been given `ts` goes on as if it were new but for that. -/
structure Continues (ts : List Token) (ops : List Op) : Prop where
  tokens : final ts ++ ((Merger.after ts).run ops).1.flatMap Reply.tokens =
    (segments ts ops).1.flatMap Segment.output ++ final (segments ts ops).2
  merger : ((Merger.after ts).run ops).2 = .after (segments ts ops).2

theorem Continues.restart {op : Op} {ops : List Op} {s : Segment} (h : Continues [] ops)
    (hs : final ts ++ ((Merger.after ts).step op).1.tokens = s.output ∧
      ((Merger.after ts).step op).2 = .after [])
    (hd : segments ts (op :: ops) = (s :: (segments [] ops).1, (segments [] ops).2)) :
    Continues ts (op :: ops) := by
  obtain ⟨ho, hm⟩ := hs
  have ht := h.tokens
  rw [final_nil, List.nil_append] at ht
  refine ⟨?_, ?_⟩
  · rw [run, List.flatMap_cons, ← List.append_assoc, ho, hm, ht, hd, List.flatMap_cons,
      List.append_assoc]
  · rw [run, hm, hd]
    exact h.merger

theorem continues (ts : List Token) (ops : List Op) : Continues ts ops := by
  induction ops generalizing ts with
  | nil => exact ⟨by simp [run, segments], rfl⟩
  | cons op ops ih =>
    cases op with
    | push t n =>
      obtain ⟨ho, hm⟩ := step_push ts t n
      obtain ⟨ht, hr⟩ := ih (ts ++ [t])
      refine ⟨?_, ?_⟩
      · rw [run, List.flatMap_cons, ← List.append_assoc, ho, hm, ht, segments]
      · rw [run, hm, hr, segments]
    | finish => exact (ih []).restart (step_finish ts) rfl
    | discard => exact (ih []).restart (step_discard ts) rfl

theorem step_whole (m : Merger) (op : Op) :
    m.step op.whole = ((m.step op).1.whole, (m.step op).2) := by
  cases op with
  | push t n =>
    simp only [Op.whole, step, Reply.whole, Emitted.take_append_left, Emitted.take_two]
  | finish => rfl
  | discard => rfl

theorem run_whole (m : Merger) (ops : List Op) :
    m.run (ops.map Op.whole) = ((m.run ops).1.map Reply.whole, (m.run ops).2) := by
  induction ops generalizing m with
  | nil => rfl
  | cons op ops ih => rw [List.map_cons, run, step_whole, ih, run, List.map_cons]

/-- After each finish and each discard a merger starts anew: what it returns is what compression
gives for each segment by itself, whatever is taken of it. -/
theorem reuse (ops : List Op) :
    let (replies, m) := ({} : Merger).run ops
    let (ended, opened) := segments [] ops
    replies.flatMap Reply.tokens =
        ended.flatMap Segment.output ++ dropLastLiteral (compress opened) ∧
      (m.finish.1.isSome = true ↔ ∃ t, opened.getLast? = some t ∧ t.isLiteral = true) ∧
      (m.discard.1 = true ↔ ∃ t, opened.getLast? = some t ∧ t.isLiteral = true) ∧
      (m.hasPending = true ↔ ∃ t, opened.getLast? = some t ∧ t.isLiteral = true) ∧
      ({} : Merger).run (ops.map Op.whole) = (replies.map Reply.whole, m) ∧
      ∀ (e : Emitted) (n : Nat),
        (e.take n).1.length = min n e.length ∧ (e.take n).2.length = e.length - n := by
  obtain ⟨ho, hm⟩ := continues [] ops
  have hp := hasPending_after (segments [] ops).2
  rw [← hm] at hp
  refine ⟨?_, ?_, hp, hp, run_whole {} ops, Emitted.length_take⟩
  · rw [dropLastLiteral_compress, ← ho]
    rfl
  · rw [← hp]
    simp [finish, hasPending, after_nil]

end Merger

end Coalesce
