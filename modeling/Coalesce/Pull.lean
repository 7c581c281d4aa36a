import Coalesce.Compress

namespace Coalesce

/-- A source of tokens, described by its answers in the order in which it is asked. It has nothing
to give at `last`, and may well go on after that. -/
structure Source where
  answer : Nat → Option Token
  last : Nat
  answer_last : answer last = none

def Source.ofList (items : List (Option Token)) : Source where
  answer i := items[i]?.join
  last := items.length
  answer_last := by simp

/-- Lazy compression: the source is asked only when no token is ready, and never again once it had
nothing to give. -/
structure Pull (src : Source) where
  merger : Merger := {}
  ready : Emitted := {}
  asked : Nat := 0
  exhausted : Bool := false
  asked_le : exhausted = false → asked ≤ src.last := by simp

namespace Pull

variable {src : Source}

def start (src : Source) : Pull src := {}

def next (p : Pull src) : Option Token × Pull src :=
  match p.ready.next? with
  | some (t, rest) => (some t, { p with ready := rest })
  | none =>
    match hx : p.exhausted with
    | true => (none, p)
    | false =>
      match ht : src.answer p.asked with
      | none =>
        (p.merger.finish.1,
          { p with merger := p.merger.finish.2, asked := p.asked + 1, exhausted := true,
                   asked_le := nofun })
      | some t =>
        have hlt : p.asked < src.last := by
          have := p.asked_le hx
          have : p.asked ≠ src.last := fun h => by simp [h, src.answer_last] at ht
          omega
        next { merger := (p.merger.push t).2, ready := (p.merger.push t).1,
               asked := p.asked + 1, asked_le := fun _ => hlt }
termination_by src.last - p.asked

/-- An upper bound on the tokens still to come. -/
def remaining (p : Pull src) : Nat :=
  p.ready.length + p.merger.pending.toList.length + (src.last - p.asked)

theorem remaining_next_lt {p q : Pull src} {t : Token} (h : p.next = (some t, q)) :
    q.remaining < p.remaining := by
  fun_induction next p with
  | case1 p u rest hr =>
    obtain ⟨-, rfl⟩ := Prod.mk.inj h
    simp [remaining, Emitted.length_of_next? hr]
  | case2 => simp at h
  | case3 p hr hx ht =>
    obtain ⟨hf, rfl⟩ := Prod.mk.inj h
    cases hp : p.merger.pending <;> simp [Merger.finish, hp] at hf
    simp [remaining, Merger.finish, hp]
    omega
  | case4 p hr hx u hu hlt ih =>
    have := ih h
    have := p.merger.length_push_le u
    simp only [remaining] at *
    omega

def toList (p : Pull src) : List Token :=
  match _h : p.next with
  | (none, _) => []
  | (some t, q) => t :: q.toList
termination_by p.remaining
decreasing_by exact remaining_next_lt _h

end Pull

end Coalesce
