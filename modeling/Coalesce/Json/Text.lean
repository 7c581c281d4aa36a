import Coalesce.Json.Reader

namespace Coalesce.Json

open Reader

def hexValue (c : Char) : Option Nat :=
  if '0' ≤ c ∧ c ≤ '9' then some (c.toNat - '0'.toNat)
  else if 'a' ≤ c ∧ c ≤ 'f' then some (c.toNat - 'a'.toNat + 10)
  else if 'A' ≤ c ∧ c ≤ 'F' then some (c.toNat - 'A'.toNat + 10)
  else none

def hexQuad (a b c d : Char) : Option Nat := do
  return (((← hexValue a) * 16 + (← hexValue b)) * 16 + (← hexValue c)) * 16 + (← hexValue d)

/-- Four hexadecimal digits. Whatever stands there instead, the fault lies behind four bytes of it,
and the text ends where it has fewer. -/
def codeUnit : Reader Nat
  | s@(a :: b :: c :: d :: r) =>
    match hexQuad a b c d with
    | some n => .ok (n, ⟨r, by simp; omega⟩)
    | none => .error ⟨.invalidEscape, s, 4⟩
  | s => .error ⟨if 4 ≤ byteLength s then .invalidEscape else .endInString, s, 4⟩

def isLeadingSurrogate (n : Nat) : Bool := 0xD800 ≤ n && n ≤ 0xDBFF

def isTrailingSurrogate (n : Nat) : Bool := 0xDC00 ≤ n && n ≤ 0xDFFF

def ofSurrogates (lead trail : Nat) : Char :=
  Char.ofNat ((lead - 0xD800) * 0x400 + (trail - 0xDC00) + 0x10000)

def pairMark (c : Char) : Reader Unit := do
  match ← peek with
  | none => stop .endInString
  | some d => if d = c then advance else stopAhead .surrogateCutShort

def unicodeEscape : Reader Char := do
  let n ← codeUnit
  if isTrailingSurrogate n then stop .loneSurrogate
  else if isLeadingSurrogate n then do
    pairMark '\\'
    pairMark 'u'
    let m ← codeUnit
    if isTrailingSurrogate m then pure (ofSurrogates n m) else stop .loneSurrogate
  else pure (Char.ofNat n)

def simpleEscape : Char → Option Char
  | '"' => some '"'
  | '\\' => some '\\'
  | '/' => some '/'
  | 'b' => some '\x08'
  | 'f' => some '\x0c'
  | 'n' => some '\n'
  | 'r' => some '\r'
  | 't' => some '\t'
  | _ => none

/-- An escape after its backslash, `code` reading what follows a `u`. -/
def escape {α : Type} (simple : Char → α) (code : Reader α) : Reader α := do
  match ← peek with
  | none => stop .endInString
  | some c =>
    match simpleEscape c with
    | some d => do advance; pure (simple d)
    | none => if c = 'u' then do advance; code else stopAhead .invalidEscape

def characters (s : List Char) : Except Fault (List Char × Rest s) :=
  match s with
  | [] => .error ⟨.endInString, [], 0⟩
  | c :: t =>
    if c = '"' then .ok ([], ⟨t, Nat.le_succ _⟩)
    else if c = '\\' then
      match escape id unicodeEscape t with
      | .error e => .error e
      | .ok (d, ⟨r, h⟩) =>
        have hr : r.length < (c :: t).length := Nat.lt_succ_of_le h
        match characters r with
        | .error e => .error e
        | .ok (ds, ⟨q, hq⟩) => .ok (d :: ds, ⟨q, Nat.le_trans hq (Nat.le_of_lt hr)⟩)
    else if c < ' ' then .error ⟨.controlCharacter, c :: t, 1⟩
    else
      match characters t with
      | .error e => .error e
      | .ok (ds, ⟨q, hq⟩) => .ok (c :: ds, ⟨q, Nat.le_succ_of_le hq⟩)
termination_by s.length
decreasing_by
  · exact hr
  · exact Nat.lt_succ_self _

/-- As `characters`, for a string that nobody asks for: surrogates need not pair. -/
def skipCharacters (s : List Char) : Except Fault (Unit × Rest s) :=
  match s with
  | [] => .error ⟨.endInString, [], 0⟩
  | c :: t =>
    if c = '"' then .ok ((), ⟨t, Nat.le_succ _⟩)
    else if c = '\\' then
      match escape (fun _ => ()) (do let _ ← codeUnit) t with
      | .error e => .error e
      | .ok ((), ⟨r, h⟩) =>
        have hr : r.length < (c :: t).length := Nat.lt_succ_of_le h
        shorten (Nat.le_of_lt hr) (skipCharacters r)
    else if c < ' ' then .error ⟨.controlCharacter, c :: t, 0⟩
    else shorten (Nat.le_succ _) (skipCharacters t)
termination_by s.length
decreasing_by
  · exact hr
  · exact Nat.lt_succ_self _

def text : Reader String := do
  return String.ofList (← characters)

end Coalesce.Json
