import Coalesce.Json.Error

namespace Coalesce.Json

/-- Why reading stopped, and where: `ahead` bytes past the start of `rest`, or at its end if that is
nearer. -/
structure Fault where
  cause : Cause
  rest : List Char
  ahead : Nat

/-- What reading the front of `s` leaves: no more than there was. -/
abbrev Rest (s : List Char) : Type := { r : List Char // r.length ≤ s.length }

def Rest.all (s : List Char) : Rest s := ⟨s, Nat.le_refl _⟩

def Reader (α : Type) : Type := (s : List Char) → Except Fault (α × Rest s)

namespace Reader

variable {α β : Type}

/-- What follows a first part may leave less. -/
def shorten {s t : List Char} (h : t.length ≤ s.length) :
    Except Fault (α × Rest t) → Except Fault (α × Rest s)
  | .error e => .error e
  | .ok (a, ⟨r, hr⟩) => .ok (a, ⟨r, Nat.le_trans hr h⟩)

instance : Monad Reader where
  pure a s := .ok (a, .all s)
  bind p f s :=
    match p s with
    | .error e => .error e
    | .ok (a, ⟨r, h⟩) => shorten h (f a r)

/-- The outcome with the bound on the rest forgotten. -/
def run (p : Reader α) (s : List Char) : Except Fault (α × List Char) :=
  match p s with
  | .error e => .error e
  | .ok (a, ⟨r, _⟩) => .ok (a, r)

theorem run_pure (a : α) (s : List Char) : run (pure a) s = .ok (a, s) := rfl

theorem run_bind (p : Reader α) (f : α → Reader β) (s : List Char) :
    run (p >>= f) s = match run p s with
      | .error e => .error e
      | .ok (a, r) => run (f a) r := by
  simp only [run, bind]
  cases p s with
  | error e => rfl
  | ok x =>
    obtain ⟨a, r, h⟩ := x
    simp only [shorten]
    cases f a r <;> rfl

def stop (c : Cause) : Reader α := fun s => .error ⟨c, s, 0⟩

/-- Stops at the character that is next, which counts as looked at: one byte further on. -/
def stopAhead (c : Cause) : Reader α := fun s => .error ⟨c, s, 1⟩

def peek : Reader (Option Char) := fun s => .ok (s.head?, .all s)

def advance : Reader Unit := fun s => .ok ((), ⟨s.tail, by simp⟩)

def takeWhile (p : Char → Bool) : Reader (List Char) := fun s =>
  .ok (s.takeWhile p, ⟨s.dropWhile p, (List.dropWhile_sublist p).length_le⟩)

def isBlank (c : Char) : Bool := c = ' ' || c = '\n' || c = '\t' || c = '\r'

def pastBlanks (s : List Char) : Rest s :=
  ⟨s.dropWhile isBlank, (List.dropWhile_sublist _).length_le⟩

/-- The next character that is not blank, which is left in place. -/
def peekPastBlanks : Reader (Option Char) := fun s => .ok ((pastBlanks s).val.head?, pastBlanks s)

def word : List Char → Reader Unit
  | [] => pure ()
  | c :: cs => do
    match ← peek with
    | none => stop .endInValue
    | some d => if d = c then do advance; word cs else stopAhead .expectedWord

def byteLength (s : List Char) : Nat := s.foldr (fun c n => c.utf8Size + n) 0

def locate (text : List Char) (f : Fault) : Error :=
  ⟨f.cause, ({} : Position).advance (byteLength text - byteLength f.rest + f.ahead) text⟩

def finish : Reader Unit := do
  match ← peekPastBlanks with
  | none => pure ()
  | some _ => stopAhead .trailingCharacters

def parse (p : Reader α) (text : String) : Except Error α :=
  match run (do let a ← p; finish; pure a) text.toList with
  | .error f => .error (locate text.toList f)
  | .ok (a, _) => .ok a

end Reader

end Coalesce.Json
