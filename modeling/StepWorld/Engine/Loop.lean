import StepWorld.Engine.Lifecycle

/-! The loops of simulations. Loops take turns in the order in which they queue, one step a
turn. A call that awaits a loop lets loops take turns until that loop has ended. -/

namespace StepWorld

inductive ReactionError where
  | refused (error : CallError)
  | failed

def ReactionError.message : ReactionError → String
  | .refused e => e.message
  | .failed => "listener failed"

namespace Loop

def continues (l : Loop) (s : Simulation) : Bool :=
  s.status == .running && !l.cancelled && !l.stopping && s.currentStep < s.maxSteps

end Loop

namespace Engine

variable (e : Engine)

def stopWithin (id : String) : Task Unit := do
  let _ ← lookupFor .stop id
  modify (·.cancel id)
  complete id

def reactionCall (task : Task Unit) : Except ReactionError Unit × Engine :=
  match e.call task with
  | (.ok (), e) => (.ok (), e)
  | (.error error, e) => (.error (.refused error), e)

def react (id : String) : Reaction → Except ReactionError Unit × Engine
  | .pause => e.reactionCall (pause id)
  | .stop => e.reactionCall (stopWithin id)
  | .fail => (.error .failed, e)
  | .dropWorld => (.ok (), { e with arena := e.arena.delete id })
  | .setVariable name value => (.ok (), { e with arena := e.arena.setVariable id name value })

/-- Reacts to a step until a reaction breaks off. The world that the reactions leave is
returned too; one that is dropped is returned as it was then. -/
def reactAll (e : Engine) (id : String) (world : World) : List Reaction → World × Engine
  | [] => (world, e)
  | r :: rest =>
    match e.react id r with
    | (.error error, e) =>
      ((e.arena.world? id).getD world,
        e.print .error ("[Simulation] Step listener error: " ++ error.message))
    | (.ok (), e) => reactAll e id ((e.arena.world? id).getD world) rest

def endLoop (id : String) : Engine :=
  { e with
    schedule := e.schedule.remove id
    active := e.active.erase id
    detached := e.detached.remove id }

def breakOff (id message : String) : Engine := (e.fail id message).endLoop id

/-- Ends a loop that takes no further step. Unless its simulation is merely paused, that is
completed. -/
def leave (id : String) : Engine :=
  let stopping := (e.schedule.find? id).any (·.stopping)
  let paused := (e.runner? id).any (·.status == .paused)
  if paused && !stopping then e.endLoop id
  else
    match e.call (complete id) with
    | (.ok (), e) => e.endLoop id
    | (.error error, e) => e.breakOff id error.message

/-- What the loop of a simulation does between two steps: it waits for the interval. One that
was cancelled meanwhile ends at once. -/
def rest (s : Simulation) : Engine :=
  if (e.schedule.find? s.id).any (·.cancelled) then e.leave s.id
  else if 0 < s.stepInterval then
    e.reschedule fun t => t.rotate (.drowsy (t.now + s.stepInterval))
  else e.reschedule (·.rotate .awake)

/-- What follows a step in a turn: the listener reacts, a run that has ended is completed, and
a world that goes on is archived. -/
def afterStep (s : Simulation) (summary : StepSummary) : Engine :=
  let id := s.id
  let e := { e with summaries := e.summaries ++ [(id, summary)] }
  let (world, e) := e.reactAll id ((e.arena.world? id).getD (.empty 0)) (e.listener id summary.step)
  if summary.terminal then
    let flag := if world.flagged "GameOver" then "GameOver" else "LevelComplete"
    (e.print .info ("[Simulation] " ++ id ++ " reached " ++ flag ++ " at step " ++
      toString summary.step)).leave id
  else
    match e.call (store (Archive.saveSnapshot id summary.step world)) with
    | (.ok (), e) => e.rest s
    | (.error error, e) => e.breakOff id error.message

def act (l : Loop) : Engine :=
  match e.runner? l.simulation with
  | none => e.endLoop l.simulation
  | some s =>
    if l.continues s then
      match e.step s with
      | (.ok summary, e) => e.afterStep s summary
      | (.error error, e) => e.breakOff s.id error.message
    else e.leave s.id

def turn : Engine :=
  let e := e.reschedule (·.beginTurn)
  match e.schedule.queue with
  | [] => e
  | l :: _ =>
    match l.phase with
    | .fresh => (e.reschedule (·.lock l.simulation)).act l
    | .awake | .roused 0 => e.act l
    | .roused (n + 1) => e.reschedule (·.rotate (.roused n))
    | .drowsy due => e.reschedule (·.sleep due)

def turns : Nat → Engine → Engine
  | 0, e => e
  | n + 1, e => turns n e.turn

/-- At least as many turns and awakenings as there can be before all loops have ended: three
for each step, and some before the first and after the last. -/
def work : Nat :=
  e.schedule.loops.foldr (fun l n =>
    3 * ((e.runner? l.simulation).map fun s => (s.maxSteps - s.currentStep).toNat).getD 0 + 4 + n) 0

/-- Lets the next thing happen: a turn or, if no loop is awake, an awakening. -/
def proceed : Engine :=
  if e.schedule.queue.isEmpty then e.reschedule (·.wake) else e.turn

def proceedUntilEnd (id : String) : Nat → Engine → Engine
  | 0, e => e
  | n + 1, e => if e.pending id then proceedUntilEnd id n e.proceed else e

def queueUp : Engine :=
  let n := e.schedule.queue.length
  let next := turns n e
  if e.schedule.round = n then next.reschedule (·.beginRound) else next

/-- Lets loops go on until a loop has ended. Then the caller queues up. -/
def awaitLoop (id : String) : Engine :=
  if e.pending id then (proceedUntilEnd id e.work e).queueUp else e

/-- Awaits the end of a simulation's loop, if it has one. What the loop broke off with breaks
off whoever awaits it. -/
def await (id : String) : Task Unit := do
  modify (·.awaitLoop id)
  match (← get).failures.get? id with
  | some error => throw error
  | none => pure ()

/-- Starts a new loop of a paused simulation once its last loop has ended. -/
def resume (id : String) : Task Unit := do
  let _ ← lookupFor .resume id
  await id
  let s ← lookupFor .resume id
  setStatus id .running
  modify fun e => (e.spawn id).print .info
    ("[Simulation] Resumed " ++ id ++ " at step " ++ toString s.currentStep)

def markStopping (id : String) : Engine :=
  e.reschedule fun s => (s.alter id fun l => { l with stopping := true }).cancel id

/-- Completes a simulation that is not over. Its loop, if it has one, completes it. -/
def stop (id : String) : Task Unit := do
  let _ ← lookupFor .stop id
  modify (·.markStopping id)
  await id
  if (← get).isLive id then complete id

def wait (id : String) : Task Unit := do
  let _ ← lookup id
  await id

/-- Deletes a simulation and its archive; one that is not over is stopped first. -/
def deleteSimulation (id : String) : Task Bool := do
  if ((← get).simulations.get? id).isNone then return false
  if (← get).isLive id then stop id
  modify (·.forget id)
  store (Archive.delete id)
  return true

def stopAll : List String → Task Unit
  | [] => pure ()
  | id :: rest => do
    if (← get).isLive id then stop id
    stopAll rest

def close : Task Unit := do
  stopAll (← get).started

/-- Ends all loops where they stand. Those that were roused act once more. -/
def endLoops : Engine := (e.schedule.queue.filter (·.isRoused)).foldl (·.act ·) e

/-- Closes the engine for good. The loops that are left are those of simulations that were
forgotten; they finish the present round and take one more turn before they are ended. -/
def finish : Except CallError Unit × Engine :=
  let (result, e) := e.call close
  let e := turns e.schedule.round e
  (result, (turns e.schedule.queue.length e).endLoops)

def proceedUntil (time : Float) : Nat → Engine → Engine
  | 0, e => e
  | n + 1, e =>
    if e.schedule.queue.isEmpty && !e.schedule.isDue time then e
    else proceedUntil time n e.proceed

def sleepFor (seconds : Float) : Engine :=
  if 0 < seconds then
    let time := e.schedule.now + seconds
    (proceedUntil time e.work e).reschedule fun s => { s with now := time }
  else e.queueUp

end Engine

end StepWorld
