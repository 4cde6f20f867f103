import StepWorld.Number.Binary

/-! Where random numbers come from. A draw is a whole number below `2^53`; weights are
compared with its fraction of `2^53` and ranges take its remainder. -/

namespace StepWorld

inductive Chance where
  /-- A linear congruential sequence, by its present state. -/
  | congruential (state : Nat)
  /-- A list of draws, used in order and again from its start. -/
  | cyclic (draws : List Nat) (used : Nat)
deriving DecidableEq, Repr

namespace Chance

def ofSeed (seed : Int) : Chance := .congruential (seed % (twoPow 64 : Nat)).toNat

def draw : Chance → Nat × Chance
  | .congruential state =>
    let state := (state * 6364136223846793005 + 1442695040888963407) % twoPow 64
    (state / twoPow 11, .congruential state)
  | .cyclic draws used =>
    (draws.getD (used % draws.length) 0, .cyclic draws (used + 1))

def between (low high : Int) (chance : Chance) : Int × Chance :=
  let (k, chance) := chance.draw
  (low + (k : Int) % (high - low + 1), chance)

end Chance

end StepWorld
