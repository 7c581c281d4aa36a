import Coalesce.Token

namespace Coalesce

/-- Literals that touch, joined so far. -/
structure Run where
  text : String
  span : Span
  deriving DecidableEq

namespace Run

def ofToken (t : Token) : Run := ⟨t.text, t.span⟩

def toToken (r : Run) : Token := ⟨.literal, r.text, r.span⟩

def extend (r : Run) (t : Token) : Run := ⟨r.text ++ t.text, ⟨r.span.start, t.span.stop⟩⟩

end Run

/-- The tokens that one push makes final: at most a closed run, then the interpolation that
closed it. -/
structure Emitted where
  run : Option Token := none
  passed : Option Token := none
  deriving DecidableEq

namespace Emitted

def toList (e : Emitted) : List Token := e.run.toList ++ e.passed.toList

def length (e : Emitted) : Nat := e.run.toList.length + e.passed.toList.length

def isEmpty (e : Emitted) : Bool := e.run.isNone && e.passed.isNone

def singleton (t : Token) : Emitted := { run := some t }

def next? : Emitted → Option (Token × Emitted)
  | ⟨some t, p⟩ => some (t, ⟨none, p⟩)
  | ⟨none, some t⟩ => some (t, {})
  | ⟨none, none⟩ => none

/-- At most `n` tokens, in order, and what is left. -/
def take : Nat → Emitted → List Token × Emitted
  | 0, e => ([], e)
  | n + 1, e =>
    match e.next? with
    | none => ([], e)
    | some (t, e) => let (ts, e) := take n e; (t :: ts, e)

@[simp] theorem toList_empty : ({} : Emitted).toList = [] := rfl

@[simp] theorem length_toList (e : Emitted) : e.toList.length = e.length := by
  simp [toList, length]

theorem length_le_two (e : Emitted) : e.length ≤ 2 := by
  rcases e with ⟨_ | _, _ | _⟩ <;> simp [length]

theorem next?_eq_none_iff (e : Emitted) : e.next? = none ↔ e.toList = [] := by
  rcases e with ⟨_ | _, _ | _⟩ <;> simp [next?, toList]

theorem toList_of_next? {e e' : Emitted} {t : Token} (h : e.next? = some (t, e')) :
    e.toList = t :: e'.toList := by
  rcases e with ⟨_ | _, _ | _⟩ <;> simp [next?] at h <;> rcases h with ⟨rfl, rfl⟩ <;> rfl

theorem length_of_next? {e e' : Emitted} {t : Token} (h : e.next? = some (t, e')) :
    e.length = e'.length + 1 := by
  rw [← length_toList, toList_of_next? h, List.length_cons, length_toList]

theorem take_eq (n : Nat) (e : Emitted) :
    (e.take n).1 = e.toList.take n ∧ (e.take n).2.toList = e.toList.drop n := by
  induction n generalizing e with
  | zero => simp [take]
  | succ n ih =>
    cases h : e.next? with
    | none => simp [take, h, (next?_eq_none_iff e).1 h]
    | some p => simp [take, h, toList_of_next? h, ih p.2]

end Emitted

/-- Joins literals that touch, one token at a time. The open run is held back until a token that
does not continue it arrives, or until the end. -/
structure Merger where
  pending : Option Run := none
  deriving DecidableEq

namespace Merger

def hasPending (m : Merger) : Bool := m.pending.isSome

/-- The end of the input: the open run, if any, becomes a token. -/
def finish (m : Merger) : Option Token × Merger := (m.pending.map Run.toToken, {})

/-- Drops the open run, and tells whether there was one. -/
def discard (m : Merger) : Bool × Merger := (m.hasPending, {})

def push (m : Merger) (t : Token) : Emitted × Merger :=
  match t.kind, m.pending with
  | .interpolation, _ => (⟨m.finish.1, some t⟩, {})
  | .literal, none => ({}, ⟨some (.ofToken t)⟩)
  | .literal, some r =>
    if r.span.stop = t.span.start then ({}, ⟨some (r.extend t)⟩)
    else (.singleton r.toToken, ⟨some (.ofToken t)⟩)

theorem push_length_le (m : Merger) (t : Token) :
    (m.push t).1.length + (m.push t).2.pending.toList.length ≤ 2 := by
  unfold push
  split
  · exact Emitted.length_le_two _
  · simp [Emitted.length]
  · split <;> simp [Emitted.length, Emitted.singleton]

/-- A push adds at most its own token to what the merger holds. -/
theorem length_push_le (m : Merger) (t : Token) :
    (m.push t).1.length + (m.push t).2.pending.toList.length ≤ m.pending.toList.length + 1 := by
  unfold push
  split <;> rename_i h
  · cases hp : m.pending <;> simp [finish, Emitted.length, hp]
  · simp [Emitted.length]
  · split <;> simp [Emitted.length, Emitted.singleton, h]

theorem hasPending_push (m : Merger) (t : Token) : (m.push t).2.hasPending = t.isLiteral := by
  unfold push
  split <;> simp_all [hasPending, Token.isLiteral]
  split <;> rfl

end Merger

end Coalesce
