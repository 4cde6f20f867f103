/-! Binary64 numbers read as integers times powers of two. Every exact rule of the
library about floats (rounding a quotient, comparing with an integer, remainders,
truncation) is stated on that reading. -/

namespace StepWorld

def twoPow (n : Nat) : Nat := Nat.pow 2 n

def tenPow (n : Nat) : Nat := Nat.pow 10 n

/-- The finite number `(-1)^negative * significand * 2^exponent`. -/
structure Binary where
  negative : Bool
  significand : Nat
  exponent : Int
deriving DecidableEq, Repr

inductive Reading where
  | finite (value : Binary)
  | infinite (negative : Bool)
  | nan
deriving DecidableEq, Repr

def leastExponent : Int := -1074

def readBits (bits : Nat) : Reading :=
  let negative := bits / twoPow 63 % 2 == 1
  let field : Nat := bits / twoPow 52 % twoPow 11
  let fraction : Nat := bits % twoPow 52
  if field = 2047 then
    if fraction = 0 then .infinite negative else .nan
  else if field = 0 then .finite ⟨negative, fraction, leastExponent⟩
  else .finite ⟨negative, fraction + twoPow 52, (field : Int) - 1075⟩

def reading (x : Float) : Reading := readBits x.toBits.toNat

def isNan (x : Float) : Bool :=
  match reading x with
  | .nan => true
  | _ => false

def isInfinite (x : Float) : Bool :=
  match reading x with
  | .infinite _ => true
  | _ => false

namespace Binary

def ratio (b : Binary) : Nat × Nat :=
  (b.significand * twoPow b.exponent.toNat, twoPow (-b.exponent).toNat)

def truncate (b : Binary) : Int :=
  let (num, den) := b.ratio
  if b.negative then -((num / den : Nat) : Int) else ((num / den : Nat) : Int)

def compareInt (b : Binary) (n : Int) : Ordering :=
  let (num, den) := b.ratio
  compare (if b.negative then -(num : Int) else (num : Int)) (n * (den : Int))

end Binary

/-- The quotient nearest to `num / den`, a half going to the even neighbour. -/
def divideHalfEven (num den : Nat) : Nat :=
  let quotient := num / den
  let twice := 2 * (num % den)
  if twice < den then quotient
  else if den < twice then quotient + 1
  else if quotient % 2 = 0 then quotient else quotient + 1

/-- The exponent at which `num / den` has a significand of 53 bits, or the least one. -/
def roundingExponent (num den : Nat) : Int :=
  let guess := (Nat.log2 num : Int) - (Nat.log2 den : Int) - 52
  let fits := num * twoPow (-guess).toNat / (den * twoPow guess.toNat) < twoPow 52
  max (if fits then guess - 1 else guess) leastExponent

def infinityBits : Nat := 2047 * twoPow 52

/-- The bits of the binary64 number nearest to `num / den`, infinity beyond the range. -/
def nearestBits (num den : Nat) : Nat :=
  if num = 0 then 0 else
    let e := roundingExponent num den
    let significand := divideHalfEven (num * twoPow (-e).toNat) (den * twoPow e.toNat)
    min ((e - leastExponent).toNat * twoPow 52 + significand) infinityBits

def nearest (negative : Bool) (num den : Nat) : Float :=
  let bits := nearestBits num den
  Float.ofBits (UInt64.ofNat (if negative then bits + twoPow 63 else bits))

def floatOfInt? (n : Int) : Option Float :=
  if nearestBits n.natAbs 1 < infinityBits then some (nearest (n < 0) n.natAbs 1) else none

/-- The rounded quotient of two integers, unless it lies beyond the range.
A zero quotient takes the sign of the divisor. -/
def intQuotient? (a b : Int) : Option Float :=
  if nearestBits a.natAbs b.natAbs < infinityBits then
    some (nearest ((a < 0) != (b < 0)) a.natAbs b.natAbs)
  else none

def truncateFloat? (x : Float) : Option Int :=
  match reading x with
  | .finite b => some b.truncate
  | _ => none

/-- How a float lies to an integer; nothing for NaN. -/
def compareFloatInt? (x : Float) (n : Int) : Option Ordering :=
  match reading x with
  | .finite b => some (b.compareInt n)
  | .infinite negative => some (if negative then .lt else .gt)
  | .nan => none

/-- The remainder of `x / y` with the sign of `x`, computed without rounding.
Nothing when `x` is infinite and `y` is a number. -/
def remainder? (x y : Float) : Option Float :=
  match reading x, reading y with
  | .nan, _ => some x
  | _, .nan => some y
  | .infinite _, _ => none
  | .finite _, .infinite _ => some x
  | .finite a, .finite b =>
    let e := min a.exponent b.exponent
    let dividend := a.significand * twoPow (a.exponent - e).toNat
    let divisor := b.significand * twoPow (b.exponent - e).toNat
    let rest : Binary := ⟨a.negative, dividend % divisor, e⟩
    some (nearest a.negative rest.ratio.1 rest.ratio.2)

end StepWorld
