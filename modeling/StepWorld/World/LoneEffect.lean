import StepWorld.World.Execution

/-! Applying one effect on its own, outside of any event. The world for it may be missing: what
needs no look into the world is then rejected or remarked as ever. -/

namespace StepWorld

/-- What became of an effect that was applied on its own. -/
structure EffectReport where
  changes : List Change
  warnings : List Notice
  error : Option EffectError

inductive LoneEffectError where
  | fault (fault : Fault)
  | worldMissing

/-- Who acts in a lone effect, and in which event of its type. Neither need exist. -/
structure LoneActor where
  handle : Option Handle
  event : Option String

def Realm.scope (r : Realm) (actor : LoneActor) (vars : Record) : Scope where
  acting := actor.handle.filter fun h => (r.world.find? h.type h.id).isSome
  targetType := do
    let entity ← r.blueprint.get? (← actor.handle).type
    (← entity.event? (← actor.event)).target
  target := none
  vars

/-- An effect without a world: it may remark, be rejected or need the world after all. -/
abbrev Worldless := ExceptT (Option EffectError) (StateM (List Notice))

namespace Worldless

/-- Sets a property where there is no instance. Only a type's name asks for the world. -/
def assign : Expr → Worldless Unit
  | .property owner _ =>
    if owner = "Self" ∨ owner = "Target" then throw (some (.targetNotFound owner)) else throw none
  | target => throw (some (.targetNotFound target.render))

mutual

def apply : Expr → Worldless Unit
  | .assignment _ target _ => assign target
  | .sequence parts => applyAll parts
  | .create type _ => throw (some (.typeNotFound type))
  | .remove _ _ => throw none
  | .call function _ => modify (· ++ [.unsupportedCall function])
  | effect => modify (· ++ [.unsupportedEffect effect])

def applyAll : List Expr → Worldless Unit
  | [] => pure ()
  | effect :: rest => do
    apply effect
    applyAll rest

end

/-- The report on an effect without a world. A named actor is looked up in the world. -/
def report (actor : LoneActor) (effect : Expr) : Except LoneEffectError EffectReport :=
  if actor.handle.isSome then .error .worldMissing
  else
    match (apply effect).run.run [] with
    | (.ok (), warnings) => .ok ⟨[], warnings, none⟩
    | (.error (some error), warnings) => .ok ⟨[], warnings, some error⟩
    | (.error none, _) => .error .worldMissing

end Worldless

namespace Realm

def applyEffect (r : Realm) (ambient : Ambient) (actor : LoneActor) (vars : Record)
    (effect : Expr) : Except LoneEffectError EffectReport × Stage :=
  match (StepWorld.applyEffect (r.scope actor vars) effect).run ⟨r, [], [], [], ambient⟩ with
  | (.ok (), s) => (.ok ⟨s.changes, s.warnings, none⟩, s)
  | (.error (.rejected error), s) => (.ok ⟨s.changes, s.warnings, some error⟩, s)
  | (.error (.fault f), s) => (.error (.fault f), s)

end Realm

def Arena.applyEffect (a : Arena) (id : String) (actor : LoneActor) (vars : Record)
    (effect : Expr) : Except LoneEffectError EffectReport × Arena :=
  match a.realms.get? id with
  | none => (Worldless.report actor effect, a)
  | some realm =>
    let (result, s) := realm.applyEffect a.ambient actor vars effect
    (result, a.settle id s anyStamp)

end StepWorld
