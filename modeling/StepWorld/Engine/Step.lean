import StepWorld.Engine.Specifications

/-! One step of a simulation: time advances, every instance runs the events of its type, every
rule runs, and the step is counted and recorded. Runs that fail on their own do not stop a
step; failing numbers do, and then the step is not counted. -/

namespace StepWorld

structure StepProgress where
  arena : Arena
  events : List String
  rules : List String
  changes : Nat
  errors : List RunError
  statistics : Statistics

/-- A part of a step. What was done before a fault stays. -/
abbrev Stepping := ExceptT Fault (StateM StepProgress)

namespace StepProgress

def addOutcome (p : StepProgress) (o : Outcome) : StepProgress :=
  { p with changes := p.changes + o.changes.length, errors := p.errors ++ o.errors }

def countEvent (p : StepProgress) (label : String) (o : Outcome) : StepProgress :=
  let s := p.statistics
  (if o.success then
    { p with
      events := p.events ++ [label]
      statistics :=
        { s with
          eventsAttempted := s.eventsAttempted + 1
          eventsExecuted := s.eventsExecuted + 1 } }
  else { p with statistics := { s with eventsAttempted := s.eventsAttempted + 1 } }).addOutcome o

def countRule (p : StepProgress) (name : String) (o : Outcome) : StepProgress :=
  let s := p.statistics
  (if o.success then
    { p with
      rules := p.rules ++ [name]
      statistics :=
        { s with
          rulesAttempted := s.rulesAttempted + 1
          rulesExecuted := s.rulesExecuted + 1 } }
  else { p with statistics := { s with rulesAttempted := s.rulesAttempted + 1 } }).addOutcome o

end StepProgress

def Stepping.run {α : Type} (run : Run α) : Stepping α := ExceptT.mk fun p =>
  let (result, arena) := ExceptT.run run p.arena
  (result, { p with arena })

structure StepTarget where
  programs : Programs
  specification : String
  world : String

namespace StepTarget

variable (t : StepTarget)

def event (type id event : String) : Stepping Unit := do
  let o ← Stepping.run
    (runEvent t.programs ⟨t.specification, some t.world, some type, some id, some event, none, []⟩)
  modify (·.countEvent (type ++ "." ++ event) o)

def events (type id : String) : List String → Stepping Unit
  | [] => pure ()
  | name :: rest => do
    t.event type id name
    events type id rest

/-- Runs the events of instances, passing over those that are gone by then. -/
def instances (type : String) : List Instance → Stepping Unit
  | [] => pure ()
  | i :: rest => do
    if ((← get).arena.instance? t.world type i.id).isSome then t.events type i.id i.events
    instances type rest

/-- Runs the events of every instance that a type has when its turn comes. -/
def entities : List EntityDecl → Stepping Unit
  | [] => pure ()
  | entity :: rest => do
    let world := (← get).arena.world? t.world
    t.instances entity.name (world.elim [] (·.instances entity.name))
    entities rest

def rules : List RuleDecl → Stepping Unit
  | [] => pure ()
  | rule :: rest => do
    let o ← Stepping.run
      (runRule t.programs ⟨t.specification, some t.world, none, none, none, some rule.name, []⟩)
    modify (·.countRule rule.name o)
    rules rest

def program (p : Program) : Stepping Unit := do
  t.entities p.entities
  t.rules p.rules

end StepTarget

namespace World

def advance (w : World) : World :=
  { w with time := w.time + 1 }.setVariable "time" (.int (w.time + 1))

/-- A world at the end of a step. A world in which the run ends is not recorded. -/
def finishStep (w : World) (step : Nat) (limit : Int) (events rules : List String) : World :=
  let w := { w with step }.setVariable "step" (.int step)
  if w.terminal then w else w.record limit events rules

end World

namespace Engine

variable (e : Engine)

def announce (s : Simulation) (summary : StepSummary) : Engine :=
  let environment := e.arena.ambient.environment
  if environment.verbose then
    let line := "  " ++ LineKind.deterministic.mark ++ " [Step " ++ toString summary.step ++ "/" ++
      toString s.maxSteps ++ "] t=" ++ toString summary.time ++ " events=" ++
      toString summary.events.length ++ " rules=" ++ toString summary.rules.length ++ " changes=" ++
      toString summary.changes
    let errors := summary.errors.map fun error =>
      LineKind.error.line environment ("    " ++ error.message)
    let ambient := e.arena.ambient
    let lines := ambient.lines ++
      environment.colored line LineKind.deterministic.color false :: errors
    { e with arena := { e.arena with ambient := { ambient with lines } } }
  else e

def finishStep (s : Simulation) (time : Int) (p : StepProgress) : StepSummary × Engine :=
  let step := s.currentStep + 1
  let arena := p.arena.update s.id
    (·.finishStep step e.settings.historyLimit p.events p.rules)
  let summary : StepSummary :=
    { step, time, events := p.events, rules := p.rules, changes := p.changes, errors := p.errors
      terminal := (arena.world? s.id).any (·.terminal) }
  let statistics :=
    { p.statistics with stateChanges := p.statistics.stateChanges + p.changes }
  let e := { e with arena }.alter s.id fun s => { s with currentStep := step, statistics }
  (summary, e)

/-- Takes one step of a simulation, whatever its status. A time that no line can show stops it
at the end. -/
def step (s : Simulation) : Except StepError StepSummary × Engine :=
  let e := { e with begun := e.begun ++ [s.id] }
  match e.programs s.specification, e.arena.world? s.id with
  | none, _ => (.error (.specificationNotFound s.specification), e)
  | some _, none => (.error (.worldGone s.id), e)
  | some program, some world =>
    let target : StepTarget := ⟨e.programs, s.specification, s.id⟩
    let start : StepProgress := ⟨e.arena.keep s.id world.advance, [], [], 0, [], s.statistics⟩
    match ExceptT.run (target.program program) start with
    | (.error f, p) =>
      (.error (.fault f),
        { e with arena := p.arena }.alter s.id fun s => { s with statistics := p.statistics })
    | (.ok (), p) =>
      let (summary, e) := e.finishStep s (world.time + 1) p
      if e.arena.ambient.environment.verbose && !isWritable summary.time then
        (.error (.fault .longInteger), e)
      else (.ok summary, e.announce s summary)

end Engine

end StepWorld
