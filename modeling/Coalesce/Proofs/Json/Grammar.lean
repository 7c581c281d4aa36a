import Coalesce.Json.Reader

/-!
The grammar of RFC 8259 over lists of characters, in relations that no reader appears in.
-/

namespace Coalesce.Json

variable {α : Type}

def Blank (c : Char) : Prop := c = ' ' ∨ c = '\t' ∨ c = '\n' ∨ c = '\r'

def Blanks (s : List Char) : Prop := ∀ c ∈ s, Blank c

/-- What `G` makes of a text, with blanks around it. -/
def Document (G : α → List Char → Prop) (a : α) (s : List Char) : Prop :=
  ∃ b u b', Blanks b ∧ Blanks b' ∧ G a u ∧ s = b ++ (u ++ b')

section Numbers

def Digits (u : List Char) : Prop := u ≠ [] ∧ ∀ c ∈ u, c.isDigit

def Whole (u : List Char) : Prop := Digits u ∧ (u.head? = some '0' → u = ['0'])

def Fraction (u : List Char) : Prop := u = [] ∨ ∃ d, Digits d ∧ u = '.' :: d

inductive Exponent : List Char → Prop
  | absent : Exponent []
  | present {e : Char} {sign d : List Char} : e = 'e' ∨ e = 'E' →
      sign = [] ∨ sign = ['+'] ∨ sign = ['-'] → Digits d → Exponent (e :: (sign ++ d))

def Unsigned (u : List Char) : Prop :=
  ∃ i f e, Whole i ∧ Fraction f ∧ Exponent e ∧ u = i ++ (f ++ e)

def Numeral (u : List Char) : Prop := Unsigned u ∨ ∃ v, Unsigned v ∧ u = '-' :: v

/-- The digits of a word, without sign, fraction or exponent. -/
def WordText (n : UInt64) (u : List Char) : Prop := Whole u ∧ Nat.ofDigitChars 10 u 0 = n.toNat

end Numbers

section Strings

def HexDigit (c : Char) (n : Nat) : Prop :=
  n < 16 ∧ (c = Nat.digitChar n ∨ c = (Nat.digitChar n).toUpper)

inductive CodeUnit : Nat → List Char → Prop
  | quad {a b c d : Char} {i j k l : Nat} : HexDigit a i → HexDigit b j → HexDigit c k →
      HexDigit d l → CodeUnit (((i * 16 + j) * 16 + k) * 16 + l) [a, b, c, d]

def shortEscapes : List (Char × Char) :=
  [('"', '"'), ('\\', '\\'), ('/', '/'), ('b', '\x08'), ('f', '\x0c'), ('n', '\n'), ('r', '\r'),
    ('t', '\t')]

/-- A piece of a string, whether or not it stands for a character. -/
inductive Piece : List Char → Prop
  | plain {c : Char} : ' ' ≤ c → c ≠ '"' → c ≠ '\\' → Piece [c]
  | short {e c : Char} : (e, c) ∈ shortEscapes → Piece ['\\', e]
  | unit {n : Nat} {u : List Char} : CodeUnit n u → Piece ('\\' :: 'u' :: u)

inductive Pieces : List Char → Prop
  | nil : Pieces []
  | cons {v w : List Char} : Piece v → Pieces w → Pieces (v ++ w)

def Quoted (u : List Char) : Prop := ∃ v, Pieces v ∧ u = '"' :: (v ++ ['"'])

/-- The spellings of a character. No character is a surrogate, so a code unit that stands alone is
none. -/
inductive CharText : Char → List Char → Prop
  | plain {c : Char} : ' ' ≤ c → c ≠ '"' → c ≠ '\\' → CharText c [c]
  | short {e c : Char} : (e, c) ∈ shortEscapes → CharText c ['\\', e]
  | unit {c : Char} {u : List Char} : CodeUnit c.toNat u → CharText c ('\\' :: 'u' :: u)
  | pair {c : Char} {m n : Nat} {u v : List Char} : CodeUnit m u → CodeUnit n v →
      0xD800 ≤ m → m ≤ 0xDBFF → 0xDC00 ≤ n → n ≤ 0xDFFF →
      c.toNat = 0x10000 + ((m - 0xD800) * 0x400 + (n - 0xDC00)) →
      CharText c ('\\' :: 'u' :: (u ++ '\\' :: 'u' :: v))

inductive CharsText : List Char → List Char → Prop
  | nil : CharsText [] []
  | cons {c : Char} {cs v w : List Char} : CharText c v → CharsText cs w →
      CharsText (c :: cs) (v ++ w)

def StringText (x : String) (u : List Char) : Prop :=
  ∃ v, CharsText x.toList v ∧ u = '"' :: (v ++ ['"'])

end Strings

section Lists

/-- Items behind another one, each after a comma, up to a closing bracket. -/
inductive Further (I : α → List Char → Prop) : List α → List Char → Prop
  | nil {b : List Char} : Blanks b → Further I [] b
  | cons {a : α} {as : List α} {b b' u t : List Char} : Blanks b → Blanks b' → I a u →
      Further I as t → Further I (a :: as) (b ++ ',' :: (b' ++ (u ++ t)))

/-- Items between two brackets, with a comma between any two of them. -/
inductive Enclosed (o c : Char) (I : α → List Char → Prop) : List α → List Char → Prop
  | nil {b : List Char} : Blanks b → Enclosed o c I [] (o :: (b ++ [c]))
  | cons {a : α} {as : List α} {b u t : List Char} : Blanks b → I a u → Further I as t →
      Enclosed o c I (a :: as) (o :: (b ++ (u ++ (t ++ [c]))))

def IsArray : List (List Char) → List Char → Prop := Enclosed '[' ']' Eq

/-- A value behind a key, of which `K` tells how it may read. -/
inductive Keyed (K : List Char → Prop) (v : List Char) : List Char → Prop
  | mk {k b b' : List Char} : K k → Blanks b → Blanks b' → Keyed K v (k ++ (b ++ ':' :: (b' ++ v)))

/-- A member of an object: its key as it decodes, its value as it stands there. -/
structure Member where
  key : String
  value : List Char

def Member.Text (m : Member) : List Char → Prop := Keyed (StringText m.key) m.value

def IsObject : List Member → List Char → Prop := Enclosed '{' '}' Member.Text

end Lists

inductive Value : List Char → Prop
  | null : Value ['n', 'u', 'l', 'l']
  | true : Value ['t', 'r', 'u', 'e']
  | false : Value ['f', 'a', 'l', 's', 'e']
  | number {u : List Char} : Numeral u → Value u
  | string {u : List Char} : Quoted u → Value u
  | array {us : List (List Char)} {s : List Char} : IsArray us s → (∀ u ∈ us, Value u) → Value s
  | object {vs : List (List Char)} {s : List Char} :
      Enclosed '{' '}' (Keyed Quoted) vs s → (∀ v ∈ vs, Value v) → Value s

def valuesOf (key : String) (ms : List Member) : List (List Char) :=
  (ms.filter (·.key = key)).map Member.value

/-- Just one member has the key, and `P` is true of its value. -/
def Once (key : String) (ms : List Member) (P : List Char → Prop) : Prop :=
  ∃ u, valuesOf key ms = [u] ∧ P u

end Coalesce.Json
