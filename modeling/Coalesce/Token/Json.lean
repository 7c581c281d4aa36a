import Coalesce.Error
import Coalesce.Json.Record
import Coalesce.Json.Writer
import Coalesce.Token

namespace Coalesce

open Json Json.Reader

namespace Kind

def jsonName : Kind → String
  | literal => "literal"
  | interpolation => "interpolation"

def ofJsonName (name : String) : Except Cause Kind :=
  if name = "literal" then .ok literal
  else if name = "interpolation" then .ok interpolation
  else .error (.unknownVariant name "`literal` or `interpolation`")

def named (name : String) : Reader Kind :=
  match ofJsonName name with
  | .ok k => pure k
  | .error c => stop c

/-- The object form behind its opening brace. -/
def keyed : Reader Kind := do
  match ← peekPastBlanks with
  | none => stop .endInObject
  | some '"' => do
    advance
    let k ← named (← text)
    colon
    null
    match ← peekPastBlanks with
    | none => stop .endInObject
    | some c => if c = '}' then do advance; pure k else stop .expectedValue
  | some '}' => stopAhead .expectedValue
  | some _ => stopAhead .keyNotString

/-- A kind is its name, or an object with the name as its one key and null as the value. -/
def read : Reader Kind := do
  match ← peekPastBlanks with
  | none => stop .endInValue
  | some c =>
    if c = '"' then do advance; named (← text)
    else if c = '{' then do advance; keyed
    else stopAhead .expectedValue

end Kind

namespace Span

structure Parts where
  start : Option UInt64 := none
  stop : Option UInt64 := none

def record : Record Parts Span where
  name := "TokenRange"
  fields := [
    ⟨"start", (·.start.isSome), fun p => do return { p with start := some (← word64) }⟩,
    ⟨"end", (·.stop.isSome), fun p => do return { p with stop := some (← word64) }⟩]
  empty := {}
  finish
    | ⟨some start, some stop⟩ => .ok ⟨start, stop⟩
    | ⟨none, _⟩ => .error "start"
    | ⟨some _, none⟩ => .error "end"

def read : Reader Span := record.read

def write (s : Span) : List Char :=
  writeObject [writeMember "start" (writeWord s.start), writeMember "end" (writeWord s.stop)]

end Span

namespace Token

structure Parts where
  kind : Option Kind := none
  text : Option String := none
  span : Option Span := none

def record : Record Parts Token where
  name := "Token"
  fields := [
    ⟨"type", (·.kind.isSome), fun p => do return { p with kind := some (← Kind.read) }⟩,
    ⟨"value", (·.text.isSome), fun p => do return { p with text := some (← string) }⟩,
    ⟨"range", (·.span.isSome), fun p => do return { p with span := some (← Span.read) }⟩]
  empty := {}
  finish
    | ⟨some kind, some text, some span⟩ => .ok ⟨kind, text, span⟩
    | ⟨none, _, _⟩ => .error "type"
    | ⟨some _, none, _⟩ => .error "value"
    | ⟨some _, some _, none⟩ => .error "range"

def read : Reader Token := record.read

def write (t : Token) : List Char :=
  writeObject [writeMember "type" (writeText t.kind.jsonName), writeMember "value" (writeText t.text),
    writeMember "range" t.span.write]

def toJson (t : Token) : String := String.ofList t.write

def ofJson (text : String) : Except Error Token := Error.ofParse (parse read text)

def listToJson (ts : List Token) : String := String.ofList (writeArray (ts.map write))

def listOfJson (text : String) : Except Error (List Token) := Error.ofParse (parse (array read) text)

end Token

def Kind.toJson (k : Kind) : String := String.ofList (writeText k.jsonName)

def Kind.ofJson (text : String) : Except Error Kind := Error.ofParse (parse Kind.read text)

def Span.toJson (s : Span) : String := String.ofList s.write

def Span.ofJson (text : String) : Except Error Span := Error.ofParse (parse Span.read text)

end Coalesce
