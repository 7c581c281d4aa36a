import Coalesce.Json.Number
import Coalesce.Json.Text

namespace Coalesce.Json

open Reader

inductive Bracket where
  | square
  | curly
  deriving DecidableEq

namespace Bracket

def close : Bracket → Char
  | square => ']'
  | curly => '}'

def ended : Bracket → Cause
  | square => .endInList
  | curly => .endInObject

/-- The fault of a value that neither a comma nor the closing bracket follows. -/
def unclosed : Bracket → Cause
  | square => .expectedCommaOrBracket
  | curly => .expectedCommaOrBrace

end Bracket

def colon : Reader Unit := do
  match ← peekPastBlanks with
  | none => stop .endInObject
  | some c => if c = ':' then advance else stopAhead .expectedColon

def Bracket.skipKey : Bracket → Reader Unit
  | square => pure ()
  | curly => do
    match ← peekPastBlanks with
    | none => stop .endInObject
    | some c =>
      if c = '"' then do
        advance
        skipCharacters
        colon
      else stopAhead .keyNotString

/-- Behind a value inside the brackets `bs`, innermost first: the brackets around the next value, or
nothing when all are closed. -/
def skipOn : List Bracket → Reader (Option (List Bracket))
  | [] => pure none
  | b :: bs => do
    match ← peekPastBlanks with
    | none => stop b.ended
    | some c =>
      if c = ',' then do
        advance
        b.skipKey
        pure (some (b :: bs))
      else if c = b.close then do
        advance
        skipOn bs
      else stopAhead b.unclosed

def skipInto (b : Bracket) (bs : List Bracket) : Reader (Option (List Bracket)) := do
  match ← peekPastBlanks with
  | none => stop b.ended
  | some c =>
    if c = b.close then do
      advance
      skipOn bs
    else do
      b.skipKey
      pure (some (b :: bs))

def skipFrom (bs : List Bracket) (c : Char) : Reader (Option (List Bracket)) :=
  match c with
  | '[' => skipInto .square bs
  | '{' => skipInto .curly bs
  | '"' => do skipCharacters; skipOn bs
  | 'n' => do word ['u', 'l', 'l']; skipOn bs
  | 't' => do word ['r', 'u', 'e']; skipOn bs
  | 'f' => do word ['a', 'l', 's', 'e']; skipOn bs
  | '-' => do skipNegative; skipOn bs
  | c =>
    if c.isDigit then do skipNumber c; skipOn bs
    else fun s => .error ⟨.expectedValue, c :: s, 1⟩

/-- Passes over values until the brackets `bs` are closed. They may nest to any depth. -/
def skipWithin (s : List Char) (bs : List Bracket) : Rest s → Except Fault (Unit × Rest s)
  | ⟨q, hq⟩ =>
    match pastBlanks q with
    | ⟨[], _⟩ => .error ⟨.endInValue, [], 0⟩
    | ⟨c :: t, hc⟩ =>
      have hlt : t.length < q.length := hc
      match skipFrom bs c t with
      | .error e => .error e
      | .ok (none, ⟨r, hr⟩) => .ok ((), ⟨r, by omega⟩)
      | .ok (some bs, ⟨r, hr⟩) => skipWithin s bs ⟨r, by omega⟩
termination_by q => q.val.length

def skipValue : Reader Unit := fun s => skipWithin s [] (.all s)

end Coalesce.Json
