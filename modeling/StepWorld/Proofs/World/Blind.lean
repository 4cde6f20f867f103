import StepWorld.Proofs.Agreement
import StepWorld.Proofs.World.Effects
import StepWorld.Proofs.World.Parts

/-! What effects and steps are blind to. A relation between stages that differ only in what no
effect looks at is kept by two runs of an effect, and both come to the same. In the same way what
two runs of every event and every rule agree on, two runs of a step agree on. -/

namespace StepWorld

variable {R : Stage → Stage → Prop}

/-- No part of an effect looks at what two stages differ in, and what it changes it changes in
both. -/
structure Stage.Blind (R : Stage → Stage → Prop) : Prop where
  owner {s t : Stage} (h : R s t) (scope : Scope) (owner : String) :
    t.owner? scope owner = s.owner? scope owner
  state {s t : Stage} (h : R s t) (k : Handle) : t.stateOf k = s.stateOf k
  debugs {s t : Stage} (h : R s t) : t.ambient.debugs = s.ambient.debugs
  shown {s t : Stage} (h : R s t) (kind : LineKind) (message : Unit → String) :
    R { s with ambient := s.ambient.debug kind message }
      { t with ambient := t.ambient.debug kind message }
  remarked {s t : Stage} (h : R s t) (notice : Notice) :
    R { s with warnings := s.warnings ++ [notice] } { t with warnings := t.warnings ++ [notice] }
  assigned {s t : Stage} (h : R s t) (k : Handle) (property : String) (value : Value)
    (change : Change) : R ((s.setProperty k property value).addChange change)
      ((t.setProperty k property value).addChange change)

/-- Two runs of an effect agree on each of its parts: on its value, and on the instance that it
adds or removes. -/
structure Expr.Agreeable (R : Stage → Stage → Prop) (part : Expr) : Prop where
  value (b : Bindings) : Agrees R (Act.eval (evaluate defaultPlaceholder b part))
    (Act.eval (evaluate defaultPlaceholder b part))
  create (type : String) (properties : Record) : part = .create type properties →
    Agrees R (createInstance type properties) (createInstance type properties)
  remove (type id : String) : part = .remove type id →
    Agrees R (removeInstance type id) (removeInstance type id)

namespace Stage.Blind

theorem bindings (h : Blind R) {s t : Stage} (hst : R s t) (scope : Scope) :
    t.bindings scope = s.bindings scope := by
  have hstate : t.stateOf = s.stateOf := funext (h.state hst)
  unfold Stage.bindings
  rw [hstate]

theorem ofExcept {α : Type} (x : Except Fault α) :
    Agrees R (Act.ofExcept x) (Act.ofExcept x) := by
  cases x with
  | ok a => exact .of_pure a
  | error f => exact .of_throw _

theorem requireWritable (values : List Value) :
    Agrees R (Act.requireWritable values) (Act.requireWritable values) :=
  .of_ite (.of_pure _) (.of_throw _)

theorem warn (h : Blind R) (notice : Notice) : Agrees R (Act.warn notice) (Act.warn notice) :=
  .of_modify fun _ _ hst => h.remarked hst notice

theorem debug (h : Blind R) (kind : LineKind) (message : Unit → String) :
    Agrees R (modify fun s => { s with ambient := s.ambient.debug kind message } : Act Unit)
      (modify fun s => { s with ambient := s.ambient.debug kind message }) :=
  .of_modify fun _ _ hst => h.shown hst kind message

theorem modifiedValue (op owner property : String) (old value : Value) :
    Agrees R (modifiedValue op owner property old value)
      (modifiedValue op owner property old value) := by
  unfold StepWorld.modifiedValue
  split
  · repeat' split
    all_goals first
      | exact ofExcept _
      | exact .of_throw _
  · exact .of_bind (requireWritable _) fun _ => .of_throw _

theorem assignProperty (h : Blind R) (scope : Scope) (op owner property : String) {value : Expr}
    (hvalue : value.Agreeable R) : Agrees R (assignProperty scope op owner property value)
      (assignProperty scope op owner property value) := by
  unfold StepWorld.assignProperty
  refine .of_look (fun s t hst => by rw [h.owner hst]) fun s => ?_
  split
  · exact .of_throw _
  · next k _ =>
    have hnote (old new : Value) (change : Change) :
        let note : Act Unit := do
          modify fun s => (s.setProperty k property new).addChange change
          if (← get).ambient.debugs then Act.requireWritable [old, new]
          modify fun s => { s with ambient := s.ambient.debug .deterministic fun _ =>
            k.id ++ "." ++ property ++ ": " ++ old.text ++ " -> " ++ new.text }
        Agrees R note note := by
      refine .of_bind (.of_modify fun s t hst => h.assigned hst k property new change) fun _ => ?_
      refine .of_look (fun s t hst => by rw [h.debugs hst]) fun s => ?_
      exact .of_ite (.of_bind (requireWritable _) fun _ => h.debug _ _) (h.debug _ _)
    refine .of_look (fun s t hst => by rw [h.bindings hst]) fun s => ?_
    refine .of_bind (hvalue.value _) fun value => ?_
    refine .of_look (fun s t hst => by rw [h.state hst]) fun s => ?_
    split
    · exact .of_bind (.of_pure _) fun new => hnote _ new _
    · exact .of_bind (modifiedValue _ _ _ _ _) fun new => hnote _ new _

theorem composes (h : Blind R) (scope : Scope) :
    scope.Composes (fun effect => ∀ part ∈ effect.nodes, part.Agreeable R)
      (fun task => Agrees R task task) where
  parts h _ hpart node hnode := h node (Expr.nodes_subset_of_child hpart hnode)
  done := .of_pure _
  next h hrest := .of_bind h fun _ => hrest
  warn := h.warn
  reject _ := .of_throw _
  assign {_ _ _ value} hparts :=
    have hvalue := Expr.nodes_subset_of_child (List.mem_cons_of_mem _ List.mem_cons_self)
    h.assignProperty _ _ _ _ (hparts value (hvalue value.mem_nodes))
  create hparts := (hparts _ (Expr.mem_nodes _)).create _ _ rfl
  remove hparts := (hparts _ (Expr.mem_nodes _)).remove _ _ rfl

end Stage.Blind

/-! ### Other surroundings -/

def Stage.Beside (A : Ambient → Ambient → Prop) (s t : Stage) : Prop :=
  ∃ ambient, A s.ambient ambient ∧ t = { s with ambient }

/-- No effect looks at what two surroundings differ in, unless it draws. -/
structure Ambient.Blind (A : Ambient → Ambient → Prop) : Prop where
  environment {a b : Ambient} (h : A a b) : b.environment = a.environment
  shown {a b : Ambient} (h : A a b) (kind : LineKind) (message : Unit → String) :
    A (a.debug kind message) (b.debug kind message)
  issued {a b : Ambient} (h : A a b) (type : String) :
    (b.issue type).1 = (a.issue type).1 ∧ A (a.issue type).2 (b.issue type).2

namespace Stage

variable {A : Ambient → Ambient → Prop} {s t : Stage}

theorem Beside.setProperty (h : s.Beside A t) (k : Handle) (property : String) (value : Value) :
    (s.setProperty k property value).Beside A (t.setProperty k property value) := by
  obtain ⟨ambient, ha, rfl⟩ := h
  unfold Stage.setProperty
  dsimp only
  split <;> exact ⟨ambient, ha, rfl⟩

theorem blind_beside (hA : Ambient.Blind A) : Blind (Beside A) where
  owner := by
    rintro s _ ⟨ambient, -, rfl⟩ scope owner
    rfl
  state := by
    rintro s _ ⟨ambient, -, rfl⟩ k
    rfl
  debugs := by
    rintro s _ ⟨ambient, ha, rfl⟩
    exact congrArg (·.debugs "executor") (hA.environment ha)
  shown := by
    rintro s _ ⟨ambient, ha, rfl⟩ kind message
    exact ⟨_, hA.shown ha kind message, rfl⟩
  remarked := by
    rintro s _ ⟨ambient, ha, rfl⟩ notice
    exact ⟨ambient, ha, rfl⟩
  assigned := by
    rintro s t hst k property value change
    obtain ⟨ambient, ha, ht⟩ := hst.setProperty k property value
    rw [ht]
    exact ⟨ambient, ha, rfl⟩

theorem agrees_createInstance (hA : Ambient.Blind A) (type : String) (properties : Record) :
    Agrees (Beside A) (createInstance type properties) (createInstance type properties) := by
  unfold createInstance
  refine .of_look ?_ fun s => ?_
  · rintro s _ ⟨ambient, -, rfl⟩
    rfl
  · split
    · exact .of_throw _
    · refine .of_modify ?_
      rintro s _ ⟨ambient, ha, rfl⟩
      obtain ⟨hid, hafter⟩ := hA.issued ha type
      exact ⟨_, hafter, by simp only [hid]; rfl⟩

theorem agrees_removeInstance (type id : String) :
    Agrees (Beside A) (removeInstance type id) (removeInstance type id) := by
  unfold removeInstance
  refine .of_look ?_ fun s => ?_
  · rintro s _ ⟨ambient, -, rfl⟩
    rfl
  · split
    · exact .of_throw _
    · refine .of_modify ?_
      rintro s _ ⟨ambient, ha, rfl⟩
      exact ⟨ambient, ha, rfl⟩

theorem agreeable_beside (hA : Ambient.Blind A) {part : Expr}
    (hvalue : ∀ b, Agrees (Beside A) (Act.eval (evaluate defaultPlaceholder b part))
      (Act.eval (evaluate defaultPlaceholder b part))) : part.Agreeable (Beside A) where
  value := hvalue
  create type properties _ := agrees_createInstance hA type properties
  remove type id _ := agrees_removeInstance type id

end Stage

/-! ### Whole steps -/

def StepProgress.Beside (R : Arena → Arena → Prop) (p q : StepProgress) : Prop :=
  ∃ arena, R p.arena arena ∧ q = { p with arena }

namespace StepProgress

variable {R : Arena → Arena → Prop} {p q : StepProgress}

theorem Beside.countEvent (h : p.Beside R q) (label : String) (o : Outcome) :
    (p.countEvent label o).Beside R (q.countEvent label o) := by
  obtain ⟨arena, ha, rfl⟩ := h
  unfold StepProgress.countEvent
  dsimp only
  split <;> exact ⟨arena, ha, rfl⟩

theorem Beside.countRule (h : p.Beside R q) (name : String) (o : Outcome) :
    (p.countRule name o).Beside R (q.countRule name o) := by
  obtain ⟨arena, ha, rfl⟩ := h
  unfold StepProgress.countRule
  dsimp only
  split <;> exact ⟨arena, ha, rfl⟩

end StepProgress

namespace StepTarget

variable {R : Arena → Arena → Prop} {α : Type}

theorem agrees_steppingRun {run run' : Run α} (h : Agrees R run run') :
    Agrees (StepProgress.Beside R) (Stepping.run run) (Stepping.run run') := by
  rintro p _ ⟨arena, ha, rfl⟩
  obtain ⟨hresult, hstate⟩ := h p.arena arena ha
  exact ⟨hresult, _, hstate, rfl⟩

variable (t : StepTarget)

theorem composes_agrees
    (hsame : ∀ a b, R a b → ∀ type, b.inhabitants t.world type = a.inhabitants t.world type)
    (hevent : ∀ type id event, Agrees R (runEvent t.programs (t.eventRequest type id event))
      (runEvent t.programs (t.eventRequest type id event))) :
    t.Composes fun task => Agrees (StepProgress.Beside R) task task where
  done := .of_pure _
  next h hrest := .of_bind h fun _ => hrest
  look h := by
    refine .of_get_bind ?_
    rintro p _ ⟨arena, ha, rfl⟩
    dsimp only
    rw [hsame _ _ ha]
    exact h _ _ _ ⟨arena, ha, rfl⟩
  event type id event := .of_bind (agrees_steppingRun (hevent type id event)) fun o =>
    .of_modify fun _ _ h => h.countEvent _ o

theorem agrees_rules (hrule : ∀ name, Agrees R (runRule t.programs (t.ruleRequest name))
    (runRule t.programs (t.ruleRequest name))) (rules : List RuleDecl) :
    Agrees (StepProgress.Beside R) (t.rules rules) (t.rules rules) := by
  refine rules_of (P := fun task => Agrees (StepProgress.Beside R) task task) (.of_pure _)
    (fun name rest hrest => ?_) rules
  exact .of_bind (agrees_steppingRun (hrule name)) fun o =>
    .of_bind (.of_modify fun _ _ h => h.countRule _ o) fun _ => hrest

theorem agrees_program
    (hsame : ∀ a b, R a b → ∀ type, b.inhabitants t.world type = a.inhabitants t.world type)
    (hevent : ∀ type id event, Agrees R (runEvent t.programs (t.eventRequest type id event))
      (runEvent t.programs (t.eventRequest type id event)))
    (hrule : ∀ name, Agrees R (runRule t.programs (t.ruleRequest name))
      (runRule t.programs (t.ruleRequest name))) (p : Program) :
    Agrees (StepProgress.Beside R) (t.program p) (t.program p) :=
  (t.composes_agrees hsame hevent).program (t.agrees_rules hrule) p

end StepTarget

end StepWorld
