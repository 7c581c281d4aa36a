import Coalesce.Json.Scalar
import Coalesce.Json.Skip

namespace Coalesce.Json

open Reader

/-- A named part of a record, read into what is known of the record so far. -/
structure Field (σ : Type) where
  name : String
  filled : σ → Bool
  read : σ → Reader σ

/-- A record is read from an object with its fields in any order, or from an array with its fields
in this one. `finish` names the first field that is missing. -/
structure Record (σ α : Type) where
  name : String
  fields : List (Field σ)
  empty : σ
  finish : σ → Except String α

/-- Whether another item follows: the closing bracket stays, a comma is passed over. -/
def another (b : Bracket) : Reader Bool := fun s =>
  match pastBlanks s with
  | ⟨[], _⟩ => .error ⟨b.ended, [], 0⟩
  | ⟨c :: t, hc⟩ =>
    if c = b.close then .ok (false, ⟨c :: t, hc⟩)
    else if c = ',' then .ok (true, ⟨t, Nat.le_of_succ_le hc⟩)
    else .error ⟨b.unclosed, c :: t, 1⟩

theorem length_lt_of_another {b : Bracket} {s : List Char} {r : Rest s}
    (h : another b s = .ok (true, r)) : r.val.length < s.length := by
  unfold another at h
  split at h
  · cases h
  · rename_i c t hc _
    split at h
    · cases h
    · split at h
      · cases h
        exact hc
      · cases h

/-- Items after the first, each behind a comma. An item may have a complaint of its own, with which
the items end. -/
def items {ε σ : Type} (b : Bracket) (item : σ → Reader (Except ε σ)) (x : σ) (s : List Char) :
    Except Fault (Except ε σ × Rest s) :=
  match hs : another b s with
  | .error e => .error e
  | .ok (false, r) => .ok (.ok x, r)
  | .ok (true, ⟨r, hr⟩) =>
    have hlt : r.length < s.length := length_lt_of_another hs
    match item x r with
    | .error e => .error e
    | .ok (.error c, ⟨q, hq⟩) => .ok (.error c, ⟨q, by omega⟩)
    | .ok (.ok y, ⟨q, hq⟩) => shorten (by omega) (items b item y q)
termination_by s.length

def elementStart : Reader Unit := do
  match ← peekPastBlanks with
  | none => stop .endInValue
  | some c => if c = ']' then stopAhead .trailingComma else pure ()

def keyStart : Reader Unit := do
  match ← peekPastBlanks with
  | none => stop .endInValue
  | some c =>
    if c = '"' then advance
    else if c = '}' then stopAhead .trailingComma
    else stopAhead .keyNotString

def closeIfNext (b : Bracket) : Reader Unit := do
  match ← peekPastBlanks with
  | none => pure ()
  | some c => if c = b.close then advance else pure ()

def endArray : Reader Unit := do
  match ← peekPastBlanks with
  | none => stop .endInList
  | some c =>
    if c = ']' then advance
    else if c = ',' then do
      advance
      match ← peekPastBlanks with
      | some ']' => stopAhead .trailingComma
      | _ => stopAhead .trailingCharacters
    else stopAhead .trailingCharacters

def nextElement {ε α : Type} (element : Reader α) (xs : List α) : Reader (Except ε (List α)) := do
  elementStart
  return .ok ((← element) :: xs)

def array {α : Type} (element : Reader α) : Reader (List α) := do
  match ← peekPastBlanks with
  | none => stop .endInValue
  | some c =>
    if c = '[' then do
      advance
      match ← peekPastBlanks with
      | none => stop .endInList
      | some c =>
        if c = ']' then do advance; pure []
        else do
          let x ← element
          let xs : Except Empty _ ← items .square (nextElement element) [x]
          closeIfNext .square
          match xs with
          | .ok xs => pure xs.reverse
    else wrongType "a sequence"

namespace Record

variable {σ α : Type}

def member (R : Record σ α) (x : σ) : Reader (Except Cause σ) := do
  let key ← text
  match R.fields.find? (·.name = key) with
  | some f =>
    if f.filled x then pure (.error (.duplicateField f.name))
    else do
      colon
      return .ok (← f.read x)
  | none => do
    colon
    skipValue
    pure (.ok x)

def members (R : Record σ α) : Reader (Except Cause σ) := do
  match ← peekPastBlanks with
  | none => stop .endInObject
  | some c =>
    if c = '}' then pure (.ok R.empty)
    else if c = '"' then do
      advance
      match ← R.member R.empty with
      | .error c => pure (.error c)
      | .ok x => items .curly (fun x => do keyStart; R.member x) x
    else stopAhead .keyNotString

/-- An object behind its opening brace. A complaint of the record's own is placed behind its closing
brace, if that is next. -/
def ofObject (R : Record σ α) : Reader α := do
  let parts ← R.members
  closeIfNext .curly
  match parts with
  | .error c => stop c
  | .ok x =>
    match R.finish x with
    | .ok a => pure a
    | .error name => stop (.missingField name)

/-- The elements that are there, and how many of the fields `fs` they fill. -/
def elements (fs : List (Field σ)) (first : Bool) (x : σ) : Reader (σ × Nat) :=
  match fs with
  | [] => pure (x, 0)
  | f :: fs => do
    if ← if first then startsElement else another .square then do
      if first then pure () else elementStart
      let (y, n) ← elements fs false (← f.read x)
      pure (y, n + 1)
    else pure (x, 0)
where
  startsElement : Reader Bool := do
    match ← peekPastBlanks with
    | none => stop .endInList
    | some c => pure (c ≠ ']')

def ofArray (R : Record σ α) : Reader α := do
  let (x, n) ← elements R.fields true R.empty
  match R.finish x with
  | .ok a => do endArray; pure a
  | .error _ => do
    closeIfNext .square
    stop (.wrongLength n
      ("struct " ++ R.name ++ " with " ++ R.fields.length.repr ++ " elements"))

def read (R : Record σ α) : Reader α := do
  match ← peekPastBlanks with
  | none => stop .endInValue
  | some c =>
    if c = '[' then do advance; R.ofArray
    else if c = '{' then do advance; R.ofObject
    else wrongType ("struct " ++ R.name)

end Record

end Coalesce.Json
