import StepWorld.Number.Shortest

/-! How numbers are written: the shortest form that reads back, the form with six
significant digits, and the form with three places. -/

namespace StepWorld

/-- Where positional notation ends and whether whole numbers keep a point. -/
structure FloatFormat where
  leastPositional : Int
  endPositional : Int
  keepsPoint : Bool

/-- Positional from `1e-4` up to, but without, `1e16`; whole numbers end in `.0`. -/
def FloatFormat.exact : FloatFormat := ⟨-4, 16, true⟩

/-- Positional from `1e-4` up to, but without, `1e6`; whole numbers have no point. -/
def FloatFormat.general : FloatFormat := ⟨-4, 6, false⟩

def zeros (n : Nat) : List Char := List.replicate n '0'

def exponentText (e : Int) : List Char :=
  let digits := Nat.toDigits 10 e.natAbs
  'e' :: (if e < 0 then '-' else '+') :: (zeros (2 - digits.length) ++ digits)

def FloatFormat.write (format : FloatFormat) (d : Decimal) : List Char :=
  let digits := Nat.toDigits 10 d.digits
  let point := digits.length + d.exponent
  let e := point - 1
  if format.leastPositional ≤ e ∧ e < format.endPositional then
    if point ≤ 0 then '0' :: '.' :: (zeros (-point).toNat ++ digits)
    else if digits.length ≤ point then
      digits ++ zeros (point - digits.length).toNat ++ (if format.keepsPoint then ['.', '0'] else [])
    else digits.take point.toNat ++ '.' :: digits.drop point.toNat
  else
    match digits with
    | [] => exponentText e
    | [c] => c :: exponentText e
    | c :: rest => c :: '.' :: (rest ++ exponentText e)

def Binary.sixDigits (b : Binary) : Decimal :=
  let (num, den) := b.ratio
  let k := decimalExponent num den - 5
  let digits := divideHalfEven (num * tenPow (-k).toNat) (den * tenPow k.toNat)
  Decimal.dropZeros 7 ⟨digits, k⟩

/-- Any float in a format; `choose` picks the decimal of a positive one. -/
def FloatFormat.text (format : FloatFormat) (choose : Binary → Decimal) (x : Float) : String :=
  match reading x with
  | .nan => "nan"
  | .infinite negative => if negative then "-inf" else "inf"
  | .finite b =>
    let body :=
      if b.significand = 0 then (if format.keepsPoint then ['0', '.', '0'] else ['0'])
      else format.write (choose b)
    String.ofList (if b.negative then '-' :: body else body)

def floatText (x : Float) : String := FloatFormat.exact.text Binary.shortest x

def floatTextGeneral (x : Float) : String := FloatFormat.general.text Binary.sixDigits x

def thousandthsText (num den : Nat) : String :=
  let n := divideHalfEven (num * 1000) den
  let places := Nat.toDigits 10 (n % 1000)
  String.ofList (Nat.toDigits 10 (n / 1000) ++ '.' :: (zeros (3 - places.length) ++ places))

end StepWorld
