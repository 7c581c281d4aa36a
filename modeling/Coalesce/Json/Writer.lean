namespace Coalesce.Json

/-- Quotes, backslashes and control characters are escaped, the latter by a letter where they have
one. -/
def escapedChar (c : Char) : List Char :=
  if c = '"' ∨ c = '\\' then ['\\', c]
  else if c = '\x08' then ['\\', 'b']
  else if c = '\t' then ['\\', 't']
  else if c = '\n' then ['\\', 'n']
  else if c = '\x0c' then ['\\', 'f']
  else if c = '\r' then ['\\', 'r']
  else if c < ' ' then
    ['\\', 'u', '0', '0', Nat.digitChar (c.toNat / 16), Nat.digitChar (c.toNat % 16)]
  else [c]

def writeText (s : String) : List Char := '"' :: s.toList.flatMap escapedChar ++ ['"']

def writeWord (n : UInt64) : List Char := Nat.toDigits 10 n.toNat

def writeMember (key : String) (value : List Char) : List Char := writeText key ++ ':' :: value

def writeArray (elements : List (List Char)) : List Char :=
  '[' :: List.intercalate [','] elements ++ [']']

def writeObject (members : List (List Char)) : List Char :=
  '{' :: List.intercalate [','] members ++ ['}']

end Coalesce.Json
