import StepWorld.Number.Binary

/-! The shortest decimal that reads back as a given binary64 number. A decimal grid
`10^k` is tried from coarse to fine. On each grid only the two neighbours of the number
can lie in the interval of values that round to it, and the nearer of them is taken. -/

namespace StepWorld

structure Decimal where
  digits : Nat
  exponent : Int
deriving DecidableEq, Repr

namespace Decimal

def dropZeros : Nat → Decimal → Decimal
  | 0, d => d
  | n + 1, d =>
    if d.digits ≠ 0 ∧ d.digits % 10 = 0 then dropZeros n ⟨d.digits / 10, d.exponent + 1⟩ else d

end Decimal

/-- The number of decimal digits of a natural number; zero has one. -/
def digitCount (n : Nat) : Nat := (Nat.toDigits 10 n).length

def decimalExponent (num den : Nat) : Int :=
  if den ≤ num then (digitCount (num / den) : Int) - 1
  else -(digitCount ((den + num - 1) / num - 1) : Int)

/-- The reals that round to a number: a fraction and two bounds over one denominator.
The bounds belong to the interval when the significand is even. -/
structure RoundingInterval where
  low : Nat
  middle : Nat
  high : Nat
  den : Nat
  closed : Bool

def Binary.interval (b : Binary) : RoundingInterval :=
  let e := b.exponent - 2
  let scale := twoPow e.toNat
  let below := if b.significand = twoPow 52 ∧ leastExponent < b.exponent then 1 else 2
  { low := (4 * b.significand - below) * scale
    middle := 4 * b.significand * scale
    high := (4 * b.significand + 2) * scale
    den := twoPow (-e).toNat
    closed := b.significand % 2 == 0 }

namespace RoundingInterval

def holds (i : RoundingInterval) (c : Nat) (k : Int) : Bool :=
  let value := c * tenPow k.toNat * i.den
  let low := i.low * tenPow (-k).toNat
  let high := i.high * tenPow (-k).toNat
  if i.closed then low ≤ value && value ≤ high else low < value && value < high

/-- The neighbour of the number on the grid `10^k` that rounds to it, the nearer of two,
the even one of two equally near. -/
def onGrid? (i : RoundingInterval) (k : Int) : Option Nat :=
  let unit := tenPow k.toNat * i.den
  let value := i.middle * tenPow (-k).toNat
  let below := value / unit
  if i.holds below k then
    if i.holds (below + 1) k then some (divideHalfEven value unit) else some below
  else if i.holds (below + 1) k then some (below + 1)
  else none

def search (i : RoundingInterval) : Nat → Int → Decimal
  | 0, k => ⟨divideHalfEven (i.middle * tenPow (-k).toNat) (tenPow k.toNat * i.den), k⟩
  | n + 1, k =>
    match i.onGrid? k with
    | some c => ⟨c, k⟩
    | none => i.search n (k - 1)

end RoundingInterval

/-- The shortest decimal that rounds to a positive finite number. Seventeen digits always
suffice. -/
def Binary.shortest (b : Binary) : Decimal :=
  let i := b.interval
  (i.search 16 (decimalExponent i.middle i.den)).dropZeros 20

end StepWorld
