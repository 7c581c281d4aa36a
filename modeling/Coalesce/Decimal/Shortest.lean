import Coalesce.Decimal.Binary64

namespace Coalesce

structure Decimal where
  digits : Nat
  exponent : Int
  deriving DecidableEq

namespace Decimal

/-- Quarters of the last binary place from `x` to the ends of what rounds to it, below and above.
Below a power of two the numbers lie twice as close. -/
def Binary64.halfGaps (x : Binary64) : Nat × Nat :=
  (if x.significand = 1 <<< 52 ∧ -1074 < x.exponent then 1 else 2, 2)

def Binary64.onGrid (x : Binary64) (p : Int) : Option Decimal :=
  let num := Nat.pow 10 (-p).toNat <<< (x.exponent - 2).toNat
  let den := Nat.pow 10 p.toNat <<< (2 - x.exponent).toNat
  let low := (4 * x.significand - x.halfGaps.1) * num
  let high := (4 * x.significand + x.halfGaps.2) * num
  let fits (d : Nat) : Bool :=
    if x.significand % 2 = 0 then low ≤ d * den && d * den ≤ high
    else low < d * den && d * den < high
  let mid := 4 * x.significand * num
  let near := roundHalfEven mid den
  let far := if near * den ≤ mid then near + 1 else near - 1
  if fits near then some ⟨near, p⟩ else if fits far then some ⟨far, p⟩ else none

/-- The fewest digits that round to `x`: the coarsest grid with a point that does. -/
def Binary64.shortest (x : Binary64) : Decimal :=
  if x.isZero then ⟨0, 0⟩
  else ((List.range 700).findSome? fun (i : Nat) => x.onGrid (309 - i)).getD ⟨0, 0⟩

/-- Positional from `10 ^ -5` to below `10 ^ 16`, always with a point; further out one digit before
the point and a signed exponent. -/
def display (d : Decimal) : String :=
  let ds := Nat.toDigits 10 d.digits
  let place : Int := d.exponent + ds.length
  let zeros (n : Int) : List Char := List.replicate n.toNat '0'
  if -5 < place ∧ place ≤ 16 then
    if 0 ≤ d.exponent then String.ofList (ds ++ zeros d.exponent ++ ['.', '0'])
    else if 0 < place then
      String.ofList (ds.take place.toNat ++ '.' :: ds.drop place.toNat)
    else String.ofList (['0', '.'] ++ zeros (-place) ++ ds)
  else
    let head := ds.take 1 ++ if ds.length = 1 then [] else '.' :: ds.drop 1
    let e := place - 1
    String.ofList (head ++ ['e', if e < 0 then '-' else '+'] ++ Nat.toDigits 10 e.natAbs)

end Decimal

end Coalesce
