import Coalesce.Json.Number
import Coalesce.Json.Text

namespace Coalesce.Json

open Reader

/-- What stands here instead of what was expected. Brackets are left in place. -/
def found : Reader Found := do
  match ← peek with
  | none => stop .endInValue
  | some 'n' => do advance; word ['u', 'l', 'l']; pure .null
  | some 't' => do advance; word ['r', 'u', 'e']; pure (.boolean true)
  | some 'f' => do advance; word ['a', 'l', 's', 'e']; pure (.boolean false)
  | some '-' => do advance; return .number (← number true)
  | some '"' => do advance; return .text (← text)
  | some '[' => pure .sequence
  | some '{' => pure .map
  | some c => if c.isDigit then do return .number (← number false) else stopAhead .expectedValue

def wrongType {α : Type} (expected : String) : Reader α := do
  stop (.wrongType (← found) expected)

def string : Reader String := do
  match ← peekPastBlanks with
  | none => stop .endInValue
  | some c => if c = '"' then do advance; text else wrongType "a string"

def null : Reader Unit := do
  match ← peekPastBlanks with
  | none => stop .endInValue
  | some c => if c = 'n' then do advance; word ['u', 'l', 'l'] else wrongType "unit"

def Number.toWord : Number → Except Cause UInt64
  | .whole n => if 0 ≤ n then .ok (.ofNat n.toNat) else .error (.wrongValue n "usize")
  | n => .error (.wrongType (.number n) "usize")

/-- A number after its sign that has to be a word. -/
def wordAfter (negative : Bool) : Reader UInt64 := do
  match (← number negative).toWord with
  | .ok w => pure w
  | .error c => stop c

def word64 : Reader UInt64 := do
  match ← peekPastBlanks with
  | none => stop .endInValue
  | some c =>
    if c = '-' then do advance; wordAfter true
    else if c.isDigit then wordAfter false
    else wrongType "usize"

end Coalesce.Json
