import StepWorld.Engine.Basic
import StepWorld.World.Execution

/-! Registering, revising, listing and deleting specifications. Each has a world of its own,
on which its events and rules can be run by hand. -/

namespace StepWorld

inductive RevisionError where
  | notFound (id : String)
  | refused (refusal : Refusal)

namespace Engine

variable (e : Engine)

def install (id : String) (s : Specification) : Engine :=
  { e with
    specifications := e.specifications.put id s
    arena := e.arena.create id s.program.entities }

def register (source : String) (name description : Option String) :
    Except Refusal String × Engine :=
  match registrable source with
  | .error refusal =>
    (.error refusal,
      match refusal with
      | .problems ps =>
        e.print .error ("[Specification] Parse failed: " ++ (ps.head?.map (·.plainMessage)).getD "")
      | .numeral _ => e)
  | .ok program =>
    let (stamp, e) := e.tick
    let (id, e) := e.issue "spec"
    let s := Specification.create source program name description stamp
    (.ok id, (e.install id s).print .info ("[Specification] Registered " ++ id ++ " (" ++
      toString s.entityCount ++ " entities, " ++ toString s.ruleCount ++ " rules)"))

/-- Replaces parts of a specification. A new source also rebuilds the world. -/
def revise (id : String) (source name description : Option String) :
    Except RevisionError Engine :=
  match e.specifications.get? id with
  | none => .error (.notFound id)
  | some s =>
    let (stamp, e) := e.tick
    match source with
    | none =>
      .ok { e with
        specifications :=
          e.specifications.put id (s.revise s.source s.program name description stamp) }
    | some source =>
      match registrable source with
      | .error refusal => .error (.refused refusal)
      | .ok program => .ok (e.install id (s.revise source program name description stamp))

/-- Deletes a specification with its world; simulations of it stay. -/
def deleteSpecification? (id : String) : Option Engine :=
  (e.specifications.get? id).map fun _ =>
    { e with
      specifications := e.specifications.remove id
      schedule := e.schedule.unlock id
      arena := e.arena.delete id }

def onArena {α : Type} (run : Run α) : Except Fault α × Engine :=
  let (result, arena) := run.run e.arena
  (result, { e with arena })

def runEvent (r : Request) : Except Fault Outcome × Engine :=
  e.onArena (StepWorld.runEvent e.programs r)

def runRule (r : Request) : Except Fault Outcome × Engine :=
  e.onArena (StepWorld.runRule e.programs r)

end Engine

end StepWorld
