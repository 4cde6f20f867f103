import StepWorld.Chance
import StepWorld.Console
import StepWorld.World.Basic

/-! What all worlds share: the source of chance, the numbers of new ids, the clock and the
console. -/

namespace StepWorld

/-- `issued` counts the ids that were given out, `clock` the stamps. -/
structure Ambient where
  environment : Environment
  chance : Chance
  issued : Nat
  clock : Nat
  lines : List String

/-- An id: a name and twelve hexadecimal digits of a number. -/
def numberedId (name : String) (n : Nat) : String :=
  name ++ "_" ++ String.ofList (hexText 12 n)

namespace Ambient

def issue (a : Ambient) (name : String) : String × Ambient :=
  (numberedId name (a.issued + 1), { a with issued := a.issued + 1 })

/-- The next stamp. Stamps only grow. -/
def tick (a : Ambient) : Nat × Ambient := (a.clock + 1, { a with clock := a.clock + 1 })

def draw (a : Ambient) : Nat × Ambient :=
  let (k, chance) := a.chance.draw
  (k, { a with chance })

def print (a : Ambient) (kind : LineKind) (message : String) : Ambient :=
  { a with lines := a.lines ++ [kind.line a.environment message] }

def debugs (a : Ambient) : Bool := a.environment.debugs "executor"

def debug (a : Ambient) (kind : LineKind) (message : Unit → String) : Ambient :=
  if a.debugs then a.print kind ("[Executor] " ++ message ()) else a

end Ambient

end StepWorld
