/-! Cancellation tokens: a flag that is raised once and cuts sleeps short. -/

namespace StepWorld

structure CancellationToken where
  cancelled : Bool
deriving DecidableEq, Repr

namespace CancellationToken

def fresh : CancellationToken := ⟨false⟩

def cancel (_ : CancellationToken) : CancellationToken := ⟨true⟩

/-- Whether a sleep is cut short. Only a token that is cancelled already does that here. -/
def sleep (t : CancellationToken) : Bool := t.cancelled

/-- A sleep of some seconds into which a cancellation falls after `arrival` seconds, and the
token after it. -/
def sleepCancelled (t : CancellationToken) (seconds arrival : Float) : Bool × CancellationToken :=
  (t.cancelled || arrival < seconds, t.cancel)

/-- How long a sleep lasts that would be cut short after `arrival` seconds; nothing if it does
not even begin. -/
def slept? (t : CancellationToken) (seconds arrival : Float) : Option Float :=
  if t.cancelled then none else some (if arrival < seconds then arrival else seconds)

end CancellationToken

end StepWorld
