import StepWorld.Number.Binary

/-! The few ways in which numbers stop what is done with them. An integer of more than 4300
digits is neither read from a text nor written into one. -/

namespace StepWorld

inductive Fault where
  | intBeyondFloats
  | quotientBeyondFloats
  | infinityToInt
  | nanToInt
  | remainderUndefined
  /-- A text holds an integer of too many digits. -/
  | longNumeral (digits : Nat)
  /-- An integer has too many digits for a text. -/
  | longInteger
deriving DecidableEq, Repr

def digitLimit : Nat := 4300

def Fault.message : Fault → String
  | .intBeyondFloats => "int too large to convert to float"
  | .quotientBeyondFloats => "integer division result too large for a float"
  | .infinityToInt => "cannot convert float infinity to integer"
  | .nanToInt => "cannot convert float NaN to integer"
  | .remainderUndefined => "math domain error"
  | .longNumeral digits =>
    "Exceeds the limit (" ++ toString digitLimit ++ " digits) for integer string conversion: " ++
      "value has " ++ toString digits ++
      " digits; use sys.set_int_max_str_digits() to increase the limit"
  | .longInteger =>
    "Exceeds the limit (" ++ toString digitLimit ++ " digits) for integer string conversion; " ++
      "use sys.set_int_max_str_digits() to increase the limit"

def leastUnwritable : Nat := tenPow digitLimit

def isWritable (n : Int) : Bool := n.natAbs < leastUnwritable

end StepWorld
