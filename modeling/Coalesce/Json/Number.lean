import Coalesce.Json.Reader

namespace Coalesce.Json

open Reader

def digitValue (c : Char) : Nat := c.toNat - '0'.toNat

/-- Digits for as long as the number they continue stays within `limit`: that number, how many
there were, and the text from the first digit too many. -/
def digitsWithin (limit : Nat) : Nat → List Char → Nat × Nat × List Char
  | n, [] => (n, 0, [])
  | n, c :: cs =>
    if c.isDigit ∧ n * 10 + digitValue c ≤ limit then
      let (m, k, rest) := digitsWithin limit (n * 10 + digitValue c) cs
      (m, k + 1, rest)
    else (n, 0, c :: cs)

theorem length_digitsWithin (limit n : Nat) (s : List Char) :
    (digitsWithin limit n s).2.2.length ≤ s.length := by
  induction s generalizing n with
  | nil => simp [digitsWithin]
  | cons c cs ih =>
    unfold digitsWithin
    split
    · exact Nat.le_succ_of_le (ih _)
    · simp

def wordMax : Nat := UInt64.size - 1

def digitsFrom (limit n : Nat) : Reader (Nat × Nat) := fun s =>
  .ok (((digitsWithin limit n s).1, (digitsWithin limit n s).2.1),
    ⟨(digitsWithin limit n s).2.2, length_digitsWithin limit n s⟩)

def peekDigit : Reader Bool := do
  return (← peek).any Char.isDigit

/-- The digits before the point, and how many of them no longer fit a word. Only `0` itself starts
with a zero. -/
def wholePart : Reader (Nat × Nat) := do
  match ← peek with
  | none => stop .endInValue
  | some '0' => do
    advance
    if ← peekDigit then stopAhead .invalidNumber else pure (0, 0)
  | some c =>
    if c.isDigit then do
      let (n, _) ← digitsFrom wordMax 0
      let excess ← takeWhile Char.isDigit
      pure (n, excess.length)
    else stopAhead .invalidNumber

/-- The digits after the point, as far as they fit a word with those before it, and their count. The
others are passed over. -/
def fractionPart (n : Nat) : Reader (Nat × Nat) := do
  if ← peekDigit then do
    let (m, k) ← digitsFrom wordMax n
    let _ ← takeWhile Char.isDigit
    pure (m, k)
  else
    match ← peek with
    | none => stop .endInValue
    | some _ => stopAhead .invalidNumber

def exponentSign : Reader Bool := do
  match ← peek with
  | some '+' => do advance; pure false
  | some '-' => do advance; pure true
  | _ => pure false

/-- Past `2 ^ 31 - 1` an exponent is no longer read. -/
def exponentMax : Nat := 0x7fffffff

def rounded (negative : Bool) (n : Nat) (e : Int) : Reader Number :=
  match Decimal.Binary64.ofDecimal n e with
  | some x => pure (.rounded negative x)
  | none => stop .numberOutOfRange

def exponentPart (negative : Bool) (n : Nat) (e : Int) : Reader Number := do
  let down ← exponentSign
  match ← peek with
  | none => stop .endInValue
  | some c =>
    if c.isDigit then do
      let (k, _) ← digitsFrom exponentMax 0
      if ← peekDigit then
        if n ≠ 0 ∧ !down then stopAhead .numberOutOfRange
        else do
          let _ ← takeWhile Char.isDigit
          pure (.rounded negative .zero)
      else rounded negative n (if down then e - k else e + k)
    else stopAhead .invalidNumber

def withExponent (negative : Bool) (n : Nat) (e : Int) : Reader Number := do
  match ← peek with
  | some 'e' | some 'E' => do advance; exponentPart negative n e
  | _ => rounded negative n e

/-- A number after its sign. A whole one keeps its value if it is a word, or the negative of one
that is not below `-2 ^ 63`, and not minus zero. -/
def number (negative : Bool) : Reader Number := do
  let (n, excess) ← wholePart
  match ← peek with
  | some '.' => do
    advance
    let (m, k) ← fractionPart n
    withExponent negative m (excess - k)
  | some 'e' | some 'E' => withExponent negative n excess
  | _ =>
    if excess = 0 ∧ !negative then pure (.whole n)
    else if excess = 0 ∧ 0 < n ∧ n ≤ 0x8000000000000000 then pure (.whole (-n))
    else rounded negative n excess

def skipDigits : Reader Unit := do
  if ← peekDigit then do let _ ← takeWhile Char.isDigit else stopAhead .invalidNumber

def skipExponent : Reader Unit := do
  match ← peek with
  | some 'e' | some 'E' => do
    advance
    let _ ← exponentSign
    skipDigits
  | _ => pure ()

/-- A number after its first digit that nobody asks for: only its form counts. -/
def skipNumber (first : Char) : Reader Unit := do
  if first = '0' then do
    if ← peekDigit then stopAhead .invalidNumber
  else do let _ ← takeWhile Char.isDigit
  match ← peek with
  | some '.' => do
    advance
    skipDigits
    skipExponent
  | _ => skipExponent

def skipNegative : Reader Unit := do
  match ← peek with
  | none => stop .invalidNumber
  | some c => if c.isDigit then do advance; skipNumber c else stopAhead .invalidNumber

end Coalesce.Json
