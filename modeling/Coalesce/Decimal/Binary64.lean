namespace Coalesce.Decimal

/-- Twice `r` against `d` decides, and an exact half goes to the even neighbour. -/
def roundHalfEven (n d : Nat) : Nat :=
  let q := n / d
  let r := n % d
  if 2 * r < d ∨ (2 * r = d ∧ q % 2 = 0) then q else q + 1

/-- The number `significand * 2 ^ exponent`. -/
structure Binary64 where
  significand : Nat
  exponent : Int
  deriving DecidableEq

namespace Binary64

def zero : Binary64 := ⟨0, -1074⟩

def isZero (x : Binary64) : Bool := x.significand = 0

def numerator (x : Binary64) : Nat := x.significand <<< x.exponent.toNat

def denominator (x : Binary64) : Nat := 1 <<< (-x.exponent).toNat

/-- The finite number of 53 significant bits nearest to `n / d`, of two the one with the even
significand. There is none where rounding passes the greatest of them. -/
def nearest (n d : Nat) : Option Binary64 :=
  if n = 0 then some zero
  else
    let scaled (e : Int) : Nat × Nat := (n <<< (-e).toNat, d <<< e.toNat)
    let guess : Int := max (n.log2 - d.log2 - 53) (-1074)
    let e := if 1 <<< 53 ≤ (scaled guess).1 / (scaled guess).2 then guess + 1 else guess
    let m := roundHalfEven (scaled e).1 (scaled e).2
    let x : Binary64 := if m = 1 <<< 53 then ⟨1 <<< 52, e + 1⟩ else ⟨m, e⟩
    if x.exponent ≤ 971 then some x else none

def mul (x y : Binary64) : Option Binary64 :=
  nearest (x.numerator * y.numerator) (x.denominator * y.denominator)

def div (x y : Binary64) : Option Binary64 :=
  nearest (x.numerator * y.denominator) (x.denominator * y.numerator)

def tenPow (k : Nat) : Option Binary64 := nearest (Nat.pow 10 k) 1

def divRepeat (y : Binary64) : Nat → Binary64 → Option Binary64
  | 0, x => some x
  | n + 1, x => if x.isZero then some x else do divRepeat y n (← div x y)

/-- `x * 10 ^ e` by rounded operations with rounded powers of ten, none above `10 ^ 308`: further
down the number is divided by that one first, as often as it takes. -/
def scale (x : Binary64) (e : Int) : Option Binary64 :=
  if x.isZero then some x
  else if 0 ≤ e then
    if e ≤ 308 then do mul x (← tenPow e.toNat) else none
  else do
    let steps := (-e - 1).toNat / 308
    div (← divRepeat (← tenPow 308) steps x) (← tenPow ((-e).toNat - 308 * steps))

def ofDecimal (significand : Nat) (exponent : Int) : Option Binary64 := do
  scale (← nearest significand 1) exponent

end Binary64

end Coalesce.Decimal
