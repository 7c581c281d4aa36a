import Coalesce.Decimal.Shortest
import Coalesce.Text.Quoted

namespace Coalesce.Json

/-- A number as it is read: whole, or else rounded. Minus zero is not whole. -/
inductive Number where
  | whole (n : Int)
  | rounded (negative : Bool) (magnitude : Decimal.Binary64)
  deriving DecidableEq

inductive Found where
  | null
  | boolean (b : Bool)
  | number (n : Number)
  | text (s : String)
  | sequence
  | map
  deriving DecidableEq

namespace Found

def display : Found → String
  | null => "null"
  | boolean true => "boolean `true`"
  | boolean false => "boolean `false`"
  | number (.whole n) => "integer `" ++ toString n ++ "`"
  | number (.rounded negative x) =>
    "floating point `" ++ (if negative then "-" else "") ++ x.shortest.display ++ "`"
  | text s => "string " ++ Text.quoted s
  | sequence => "sequence"
  | map => "map"

end Found

inductive Cause where
  | endInList
  | endInObject
  | endInString
  | endInValue
  | expectedColon
  | expectedCommaOrBracket
  | expectedCommaOrBrace
  | expectedWord
  | expectedValue
  | invalidEscape
  | invalidNumber
  | numberOutOfRange
  | controlCharacter
  | keyNotString
  | loneSurrogate
  | surrogateCutShort
  | trailingComma
  | trailingCharacters
  | missingField (name : String)
  | duplicateField (name : String)
  | wrongLength (length : Nat) (expected : String)
  | unknownVariant (name expected : String)
  | wrongType (found : Found) (expected : String)
  | wrongValue (n : Int) (expected : String)
  deriving DecidableEq

namespace Cause

def message : Cause → String
  | endInList => "EOF while parsing a list"
  | endInObject => "EOF while parsing an object"
  | endInString => "EOF while parsing a string"
  | endInValue => "EOF while parsing a value"
  | expectedColon => "expected `:`"
  | expectedCommaOrBracket => "expected `,` or `]`"
  | expectedCommaOrBrace => "expected `,` or `\x7d`"
  | expectedWord => "expected ident"
  | expectedValue => "expected value"
  | invalidEscape => "invalid escape"
  | invalidNumber => "invalid number"
  | numberOutOfRange => "number out of range"
  | controlCharacter => "control character (\\u0000-\\u001F) found while parsing a string"
  | keyNotString => "key must be a string"
  | loneSurrogate => "lone leading surrogate in hex escape"
  | surrogateCutShort => "unexpected end of hex escape"
  | trailingComma => "trailing comma"
  | trailingCharacters => "trailing characters"
  | missingField name => "missing field `" ++ name ++ "`"
  | duplicateField name => "duplicate field `" ++ name ++ "`"
  | wrongLength n expected => "invalid length " ++ toString n ++ ", expected " ++ expected
  | unknownVariant name expected => "unknown variant `" ++ name ++ "`, expected " ++ expected
  | wrongType found expected => "invalid type: " ++ found.display ++ ", expected " ++ expected
  | wrongValue n expected =>
    "invalid value: integer `" ++ toString n ++ "`, expected " ++ expected

end Cause

/-- Lines count from 1, columns count the bytes since the line began. -/
structure Position where
  line : Nat := 1
  column : Nat := 0
  deriving DecidableEq

/-- The position `bytes` bytes further into a text, or that of its end if it is nearer. A byte
count may end inside a character. -/
def Position.advance (p : Position) : Nat → List Char → Position
  | 0, _ => p
  | _ + 1, [] => p
  | n + 1, c :: cs =>
    if c = '\n' then advance ⟨p.line + 1, 0⟩ n cs
    else if c.utf8Size ≤ n + 1 then advance ⟨p.line, p.column + c.utf8Size⟩ (n + 1 - c.utf8Size) cs
    else ⟨p.line, p.column + (n + 1)⟩

structure Error where
  cause : Cause
  position : Position
  deriving DecidableEq

def Error.message (e : Error) : String :=
  e.cause.message ++ " at line " ++ e.position.line.repr ++ " column " ++ e.position.column.repr

end Coalesce.Json
