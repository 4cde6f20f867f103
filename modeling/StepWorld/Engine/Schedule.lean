/-! The schedule of loops. Loops that can go on stand in a queue and take turns, and a round
gives each of them one turn. Loops that wait between two steps sleep. -/

namespace StepWorld

/-- What a loop does when its turn comes: it takes the lock of its simulation and acts for the first
time, it acts, it lets some turns pass before it acts because it was roused from sleep, or it falls
asleep until a time. -/
inductive LoopPhase where
  | fresh
  | awake
  | roused (turns : Nat)
  | drowsy (due : Float)

/-- A loop that has been started and has not ended. A cancelled loop takes no further step; a
stopping one completes its simulation even if that is paused. -/
structure Loop where
  simulation : String
  cancelled : Bool
  stopping : Bool
  phase : LoopPhase

namespace Loop

/-- A loop without any sleep. It needs two turns to come round from one. -/
def rouse (l : Loop) : Loop := { l with phase := .roused 2 }

def isRoused (l : Loop) : Bool :=
  match l.phase with
  | .roused _ => true
  | _ => false

/-- Cancels a loop. That ends its sleep before it has begun. -/
def cancel (l : Loop) : Loop :=
  match l.phase with
  | .drowsy _ => { l with cancelled := true }.rouse
  | _ => { l with cancelled := true }

end Loop

/-- `round` counts the loops at the front of the queue that are still to take their turn in
the present round. Every sleeper stands with the time at which it is due, the earliest
first. `locks` names the worlds under whose lock something runs or has run. -/
structure Schedule where
  queue : List Loop
  round : Nat
  sleepers : List (Float × Loop)
  now : Float
  locks : List String

namespace Schedule

def empty : Schedule := ⟨[], 0, [], 0, []⟩

variable (s : Schedule)

def loops : List Loop := s.queue ++ s.sleepers.map (·.2)

def find? (id : String) : Option Loop := s.loops.find? (·.simulation == id)

def pending (id : String) : Bool := (s.find? id).isSome

def add (id : String) : Schedule := { s with queue := s.queue ++ [⟨id, false, false, .fresh⟩] }

def lock (id : String) : Schedule :=
  { s with locks := if s.locks.contains id then s.locks else s.locks ++ [id] }

def unlock (id : String) : Schedule := { s with locks := s.locks.filter (· != id) }

def remove (id : String) : Schedule :=
  { s with
    queue := s.queue.filter (·.simulation != id)
    sleepers := s.sleepers.filter (·.2.simulation != id) }

def alter (id : String) (f : Loop → Loop) : Schedule :=
  let change (l : Loop) : Loop := if l.simulation = id then f l else l
  { s with
    queue := s.queue.map change
    sleepers := s.sleepers.map fun (due, l) => (due, change l) }

def rouse (id : String) : Schedule :=
  match s.sleepers.find? (·.2.simulation == id) with
  | none => s
  | some (_, l) =>
    { s with
      queue := s.queue ++ [l.rouse]
      sleepers := s.sleepers.filter (·.2.simulation != id) }

/-- Cancels a loop. That ends its sleep. -/
def cancel (id : String) : Schedule := (s.alter id (·.cancel)).rouse id

/-- Counts the turn of the first loop. A round that has ended is followed by a round of all
loops in the queue. -/
def beginTurn : Schedule :=
  { s with round := (if s.round = 0 then s.queue.length else s.round) - 1 }

def beginRound : Schedule := { s with round := s.queue.length }

def rotate (phase : LoopPhase) : Schedule :=
  match s.queue with
  | [] => s
  | l :: rest => { s with queue := rest ++ [{ l with phase }] }

def insertSleeper (due : Float) (l : Loop) : List (Float × Loop) → List (Float × Loop)
  | [] => [(due, l)]
  | first :: rest =>
    if due < first.1 then (due, l) :: first :: rest else first :: insertSleeper due l rest

def sleep (due : Float) : Schedule :=
  match s.queue with
  | [] => s
  | l :: rest => { s with queue := rest, sleepers := insertSleeper due l s.sleepers }

def wake : Schedule :=
  match s.sleepers with
  | [] => s
  | (due, l) :: rest =>
    { s with
      queue := s.queue ++ [{ l with phase := .awake }]
      sleepers := rest
      now := if s.now < due then due else s.now }

def isDue (time : Float) : Bool :=
  match s.sleepers with
  | [] => false
  | (due, _) :: _ => due < time

end Schedule

end StepWorld
