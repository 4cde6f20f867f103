import StepWorld.Simulation

/-! Simulations, worlds and results as documents. -/

namespace StepWorld

def optionalText : Option String → Value
  | some s => .str s
  | none => .null

def optionalStamp : Option Nat → Value
  | some n => .int n
  | none => .null

def natValue (n : Nat) : Value := .int n

def textValues (items : List String) : Value := .ofItems (items.map .str)

namespace Statistics

def document (s : Statistics) : Value :=
  .map [("events_executed", natValue s.eventsExecuted),
    ("rules_executed", natValue s.rulesExecuted), ("state_changes", natValue s.stateChanges),
    ("events_attempted", natValue s.eventsAttempted),
    ("rules_attempted", natValue s.rulesAttempted)]

end Statistics

def Simulation.document (s : Simulation) : Value :=
  .map [("id", .str s.id), ("specification_id", .str s.specification), ("name", .str s.name),
    ("description", optionalText s.description), ("status", .str s.status.name),
    ("current_step", natValue s.currentStep), ("max_steps", .int s.maxSteps),
    ("step_interval", .float s.stepInterval), ("created_at", natValue s.createdAt),
    ("started_at", optionalStamp s.startedAt), ("completed_at", optionalStamp s.completedAt),
    ("statistics", s.statistics.document), ("error", optionalText s.error)]

def Instance.document (i : Instance) : Value :=
  .map [("id", .str i.id), ("type", .str i.type), ("state", .map i.state),
    ("events", textValues i.events)]

def Moment.document (m : Moment) : Value :=
  .map [("step", .int m.step), ("time", .int m.time), ("variables", .map m.vars),
    ("entities", .map (m.entities.map fun (type, is) =>
      (type, .ofItems (is.map fun (id, state) => .map [("id", .str id), ("state", .map state)])))),
    ("events", textValues m.events), ("rules", textValues m.rules)]

namespace World

def presentFields (w : World) : Record :=
  [("time", .int w.time), ("step", .int w.step),
    ("entities", .map (w.entities.map fun (type, is) => (type, .ofItems (is.map (·.document))))),
    ("variables", .map w.vars),
    ("metadata", .map [("last_updated", natValue w.stamp), ("total_steps", .int w.totalSteps)])]

def document (w : World) : Value :=
  .map (w.presentFields ++ [("history", .ofItems (w.history.map (·.document)))])

end World

def SimulationMetrics.document (m : SimulationMetrics) : Value :=
  .map [("total_steps", natValue m.totalSteps), ("events_executed", natValue m.eventsExecuted),
    ("rules_executed", natValue m.rulesExecuted), ("success_rate", .float m.successRate)]

def SimulationResult.document (r : SimulationResult) : Value :=
  .map [("simulation", r.simulation.document), ("final_state", r.finalWorld.document),
    ("history", .ofItems (r.history.map (·.document))), ("metrics", r.metrics.document)]

end StepWorld
