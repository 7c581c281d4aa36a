import Coalesce.Pipe
import Coalesce.Proofs.Stream.Transfer

namespace Coalesce

def Ending.seen : Ending → Stream.Item
  | close => .ended
  | abort r => .failed (.aborted r)
  | drop => .failed .writerDropped

/-- The frames that an ending leaves in the channel. -/
def Ending.marks : Ending → List Stream.Frame
  | close => [.closed]
  | abort r => [.aborted r]
  | drop => []

/-- What a reader that is told of the ending has been given of the tokens accepted. -/
def Ending.Delivers (accepted received : List Token) : Ending → Prop
  | close => received = compress accepted
  | abort _ => received = dropLastLiteral (compress accepted)
  | drop => received <+: compress accepted

theorem Ending.Delivers.prefix_compress {A R : List Token} {e : Ending} (h : e.Delivers A R) :
    R <+: compress A := by
  cases e with
  | close => exact h ▸ List.prefix_refl _
  | abort r =>
    rw [Delivers, dropLastLiteral_compress] at h
    exact h ▸ final_prefix_compress A
  | drop => exact h

def Ending.outcome (ts : List Token) : Ending → Except Stream.Failure (List Token)
  | close => .ok ts
  | abort r => .error (.aborted r)
  | drop => .error .writerDropped

namespace Stream

theorem eq_of_withCapacity {n : UInt64} {s : Stream} (h : withCapacity n = .ok s) :
    s = { channel := { capacity := max n.toNat 1 } } := by
  simp only [withCapacity] at h
  split at h <;> cases h
  rfl

theorem alone_iff (s : Stream) : s.alone = true ↔ s.writing = .gone := decide_eq_true_iff

namespace Reader

variable {r : Reader} {alone : Bool} {c : Channel} {e : Ending}

theorem poll_of_deaf (hl : c.listening = false) : r.poll alone c = (.ended, r, c, []) := by
  simp [poll, hl]

theorem poll_of_token {t : Token} {fs : List Frame} (hl : c.listening = true)
    (hf : c.frames = .token t :: fs) :
    r.poll alone c =
      (.token t, ⟨r.delivered + 1⟩, { c with frames := fs }, [.delivered t.kind t.span]) := by
  simp [poll, hl, hf]

/-- What is left once the tokens are gone tells how the writing ended. -/
theorem poll_of_marks (hl : c.listening = true) (hf : c.frames = e.marks) :
    ∃ es, r.poll true c = (e.seen, r, { c with frames := [], listening := false }, es) := by
  obtain ⟨n, fs, l⟩ := c
  obtain rfl : l = true := hl
  obtain rfl : fs = e.marks := hf
  cases e with
  | close => exact ⟨_, rfl⟩
  | abort r => exact ⟨_, rfl⟩
  | drop => exact ⟨_, rfl⟩

theorem collect_of_marks {ts : List Token} (hl : c.listening = true)
    (hf : c.frames = ts.map .token ++ e.marks) (taken : List Token) :
    r.drawn true c = ts ∧ ∃ es, r.collect true taken c =
      (some (e.outcome (taken ++ ts)), .gone, { c with frames := [], listening := false }, es) := by
  induction ts generalizing r c taken with
  | nil =>
    obtain ⟨es, hp⟩ := r.poll_of_marks hl hf
    rw [List.append_nil]
    refine ⟨?_, es, ?_⟩
    · rw [drawn, hp]
      cases e <;> rfl
    · rw [collect, hp]
      cases e <;> rfl
  | cons t ts ih =>
    have hp : r.poll true c = _ := r.poll_of_token hl hf
    obtain ⟨hd, es, hc⟩ := ih (r := ⟨r.delivered + 1⟩)
      (c := { c with frames := ts.map .token ++ e.marks }) hl rfl (taken ++ [t])
    refine ⟨?_, .delivered t.kind t.span :: es, ?_⟩
    · rw [drawn, hp]
      simp only [List.append_eq, hd]
    · rw [collect, hp]
      simp only [List.append_eq, hc, List.append_assoc, List.singleton_append]

theorem collect_of_tokens {ts : List Token} (hl : c.listening = true)
    (hf : c.frames = ts.map .token) (taken : List Token) :
    ∃ es, r.collect false taken c =
      (none, .collecting ⟨r.delivered + ts.length⟩ (taken ++ ts), { c with frames := [] }, es) := by
  induction ts generalizing r c taken with
  | nil =>
    have hp : r.poll false c = (.pending, r, c, []) := by simp [poll, hl, hf]
    refine ⟨[], ?_⟩
    rw [collect, hp, ← (show c.frames = [] from hf), List.append_nil]
    rfl
  | cons t ts ih =>
    have hp : r.poll false c = _ := r.poll_of_token hl hf
    obtain ⟨es, hc⟩ := ih (r := ⟨r.delivered + 1⟩) (c := { c with frames := ts.map .token }) hl rfl
      (taken ++ [t])
    refine ⟨.delivered t.kind t.span :: es, ?_⟩
    rw [collect, hp]
    simp only [List.append_assoc, hc]
    rw [Nat.add_assoc, Nat.add_comm 1]
    rfl

end Reader

end Stream

end Coalesce
