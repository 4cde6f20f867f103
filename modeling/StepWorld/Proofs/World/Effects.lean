import StepWorld.Proofs.Moves
import StepWorld.Proofs.World.Composition

/-! What the parts of an effect may do to a stage. A relation between stages that allows each of
these holds along every effect, however it is nested. In the same way what holds along every event
and every rule holds along a step. -/

namespace StepWorld

variable {R : Stage → Stage → Prop}

/-- A relation allows what the parts of an effect do: to draw, to print, to remark, and to change,
add or remove one instance. -/
structure Stage.Allows (R : Stage → Stage → Prop) : Prop where
  drawn (s : Stage) (chance : Chance) : R s { s with ambient := { s.ambient with chance } }
  shown (s : Stage) (kind : LineKind) (message : Unit → String) :
    R s { s with ambient := s.ambient.debug kind message }
  remarked (s : Stage) (notice : Notice) : R s { s with warnings := s.warnings ++ [notice] }
  assigned (s : Stage) (h : Handle) (property : String) (value : Value) (change : Change) :
    R s ((s.setProperty h property value).addChange change)
  created (s : Stage) (type : String) (entity : EntityDecl) (properties : Record)
      (h : s.realm.blueprint.get? type = some entity) :
    R s (({ s.setWorld (s.realm.world.addInstance
        (entity.instantiate type (s.ambient.issue type).1 properties)) with
      ambient := (s.ambient.issue type).2 }).addChange
        (.created (s.ambient.issue type).1 type properties))
  removed (s : Stage) (type id : String) (i : Instance) :
    R s (({ s.setWorld (s.realm.world.removeInstance type id) with
      departed := i :: s.departed }).addChange (.removed id type i.state))

theorem moves_applyWeighted_cons [Trans R R R] {scope : Scope} {label : String}
    {w : WeightedEffect} {rest : List WeightedEffect}
    (hrolled : ∀ s kind message, R s { s with ambient := s.ambient.draw.2.debug kind message })
    (hfirst : Moves R (applyEffect scope w.effect))
    (hrest : Moves R (applyWeighted scope label rest)) :
    Moves R (applyWeighted scope label (w :: rest)) := by
  unfold applyWeighted
  refine .of_get_bind fun s => Moves.bind_at (hrolled s _ _) fun _ => ?_
  exact .of_ite (.of_bind hfirst fun _ => hrest) hrest

namespace Stage.Allows

theorem eval {α : Type} (h : Allows R) (x : Eval α) : Moves R (Act.eval x) := by
  intro s
  unfold Act.eval
  simp only [ExceptT.run, ExceptT.mk, StateT.run]
  split <;> exact h.drawn s _

theorem warn (h : Allows R) (notice : Notice) : Moves R (Act.warn notice) :=
  .of_modify fun s => h.remarked s notice

variable [Std.Refl R]

theorem ofExcept {α : Type} (x : Except Fault α) : Moves R (Act.ofExcept x) := by
  cases x with
  | ok a => exact .of_pure a
  | error f => exact .of_throw _

theorem requireWritable (values : List Value) : Moves R (Act.requireWritable values) := by
  unfold Act.requireWritable
  split
  · exact .of_pure _
  · exact .of_throw _

variable [Trans R R R]

omit [Std.Refl R] in
theorem rolled (h : Allows R) (s : Stage) (kind : LineKind) (message : Unit → String) :
    R s { s with ambient := s.ambient.draw.2.debug kind message } :=
  Trans.trans (h.drawn s s.ambient.draw.2.chance)
    (h.shown { s with ambient := s.ambient.draw.2 } kind message)

theorem modifiedValue (op owner property : String) (old value : Value) :
    Moves R (modifiedValue op owner property old value) := by
  unfold StepWorld.modifiedValue
  split
  · repeat' split
    all_goals first
      | exact ofExcept _
      | exact .of_throw _
  · exact .of_bind (requireWritable _) fun _ => .of_throw _

theorem assignProperty (h : Allows R) (scope : Scope) (op owner property : String) (value : Expr) :
    Moves R (assignProperty scope op owner property value) := by
  unfold StepWorld.assignProperty
  refine .of_bind .of_get fun s => ?_
  split
  · exact .of_throw _
  · next k _ =>
    have hnote (old new : Value) (change : Change) : Moves R (do
        modify fun s => (s.setProperty k property new).addChange change
        if (← get).ambient.debugs then Act.requireWritable [old, new]
        modify fun s => { s with ambient := s.ambient.debug .deterministic fun _ =>
          k.id ++ "." ++ property ++ ": " ++ old.text ++ " -> " ++ new.text } : Act Unit) := by
      refine .of_bind (.of_modify fun s => h.assigned s k property new change) fun _ => ?_
      refine .of_bind .of_get fun s => ?_
      have hdebug : Moves R (modify fun s => { s with
          ambient := s.ambient.debug .deterministic fun _ =>
            k.id ++ "." ++ property ++ ": " ++ old.text ++ " -> " ++ new.text } : Act Unit) :=
        .of_modify fun s => h.shown s _ _
      dsimp only
      split
      · exact .of_bind (requireWritable _) fun _ => hdebug
      · exact hdebug
    refine .of_bind .of_get fun s => .of_bind (h.eval _) fun value => ?_
    refine .of_bind .of_get fun s => ?_
    dsimp only
    split
    · exact .of_bind (.of_pure _) fun new => hnote _ new _
    · exact .of_bind (modifiedValue _ _ _ _ _) fun new => hnote _ new _

omit [Trans R R R] in
theorem createInstance (h : Allows R) (type : String) (properties : Record) :
    Moves R (createInstance type properties) := by
  unfold StepWorld.createInstance
  refine .of_get_bind fun s => ?_
  split
  · exact Std.Refl.refl s
  · next entity hentity => exact h.created s type entity properties hentity

theorem removeInstance (h : Allows R) (type id : String) : Moves R (removeInstance type id) := by
  unfold StepWorld.removeInstance
  refine .of_bind .of_get fun s => ?_
  split
  · exact .of_throw _
  · next i _ => exact .of_modify fun s => h.removed s type id i

theorem composes (h : Allows R) (scope : Scope) : scope.Composes (fun _ => True) (Moves R) where
  parts _ _ _ := trivial
  done := .of_pure _
  next h hrest := .of_bind h fun _ => hrest
  warn := h.warn
  reject _ := .of_throw _
  assign _ := h.assignProperty _ _ _ _ _
  create _ := h.createInstance _ _
  remove _ := h.removeInstance _ _

theorem callAct (h : Allows R) (c : Call) (scope : Scope) : Moves R (c.act scope) :=
  (h.composes scope).callAct (fun _ _ => trivial) <|
    (h.composes scope).applyWeighted (fun _ _ => moves_applyWeighted_cons h.rolled)
      fun _ _ => trivial

end Stage.Allows

namespace Call

variable (c : Call)

def begun (a : Arena) : Stage := ⟨c.realm, [], [], [], a.ambient⟩

theorem run_apply (id : String) (scope : Scope) (a : Arena) :
    (c.apply id scope).run.run a =
      match (c.act scope).run.run (c.begun a) with
      | (.ok (), s) => (.ok ⟨true, s.changes, [], s.warnings⟩, a.settle id s anyChange)
      | (.error (.rejected e), s) =>
        (.ok ⟨false, s.changes, [.effect e], s.warnings⟩, a.settle id s anyChange)
      | (.error (.fault f), s) => (.error f, a.settle id s anyStamp) := rfl

end Call

theorem Stepping.run_eq_ok {α : Type} {run : Run α} {s r : StepProgress} {a : α}
    (h : (ExceptT.run (Stepping.run run)).run s = (.ok a, r)) :
    ∃ arena, (ExceptT.run run).run s.arena = (.ok a, arena) ∧ r = { s with arena } := by
  change (((ExceptT.run run).run s.arena).1, { s with
    arena := ((ExceptT.run run).run s.arena).2 }) = (.ok a, r) at h
  obtain ⟨hresult, rfl⟩ := Prod.mk.inj h
  exact ⟨_, Prod.ext hresult rfl, rfl⟩

def StepProgress.Along (R : Arena → Arena → Prop) (p q : StepProgress) : Prop := R p.arena q.arena

namespace StepTarget

variable {R : Arena → Arena → Prop} [Std.Refl R] [Trans R R R]

instance : Std.Refl (StepProgress.Along R) := ⟨fun p => Std.Refl.refl p.arena⟩

instance : Trans (StepProgress.Along R) (StepProgress.Along R) (StepProgress.Along R) :=
  ⟨fun {a b c} (h : R a.arena b.arena) (h' : R b.arena c.arena) =>
    (Trans.trans h h' : R a.arena c.arena)⟩

omit [Trans R R R] in
theorem along_countEvent (p : StepProgress) (label : String) (o : Outcome) :
    StepProgress.Along R p (p.countEvent label o) := by
  unfold StepProgress.countEvent
  dsimp only
  split <;> exact Std.Refl.refl p.arena

omit [Trans R R R] in
theorem along_countRule (p : StepProgress) (name : String) (o : Outcome) :
    StepProgress.Along R p (p.countRule name o) := by
  unfold StepProgress.countRule
  dsimp only
  split <;> exact Std.Refl.refl p.arena

variable (t : StepTarget)

theorem composes_moves {S : StepProgress → StepProgress → Prop} [Std.Refl S] [Trans S S S]
    (hevent : ∀ type id event, Moves S (t.event type id event)) : t.Composes (Moves S) where
  done := .of_pure _
  next h hrest := .of_bind h fun _ => hrest
  look h := .of_get_bind fun p => h _ p
  event := hevent

theorem composes_along
    (hevent : ∀ type id event, Moves R (runEvent t.programs (t.eventRequest type id event))) :
    t.Composes (Moves (StepProgress.Along R)) := by
  refine t.composes_moves fun type id event => ?_
  have hrun : Moves (StepProgress.Along R)
      (Stepping.run (runEvent t.programs (t.eventRequest type id event))) :=
    fun p => hevent type id event p.arena
  exact .of_bind hrun fun o => .of_modify fun p => along_countEvent p _ o

theorem moves_rules (hrule : ∀ name, Moves R (runRule t.programs (t.ruleRequest name)))
    (rules : List RuleDecl) : Moves (StepProgress.Along R) (t.rules rules) := by
  refine rules_of (.of_pure _) (fun name rest hrest => ?_) rules
  have hrun : Moves (StepProgress.Along R)
      (Stepping.run (runRule t.programs (t.ruleRequest name))) := fun p => hrule name p.arena
  exact .of_bind hrun fun o => .of_bind (.of_modify fun p => along_countRule p _ o) fun _ => hrest

theorem moves_program
    (hevent : ∀ type id event, Moves R (runEvent t.programs (t.eventRequest type id event)))
    (hrule : ∀ name, Moves R (runRule t.programs (t.ruleRequest name))) (p : Program) :
    Moves (StepProgress.Along R) (t.program p) :=
  (t.composes_along hevent).program (t.moves_rules hrule) p

end StepTarget

end StepWorld
