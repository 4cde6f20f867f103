import StepWorld.Engine.Step
import StepWorld.Proofs.World.Parts

/-! What effects, rules and steps are composed of. What holds of the parts of an effect and goes on
from one part to the next holds of the effect, however it is nested. In the same way what holds of
conditions and flags holds of a rule, and what holds of events and rules holds of a step. -/

namespace StepWorld

/-- What holds of computations, passed on by what effects of a kind are made of. The kind passes
to the parts of a sequence. -/
structure Scope.Composes (scope : Scope) (K : Expr → Prop) (P : Act Unit → Prop) : Prop where
  parts {effects : List Expr} (h : K (.sequence effects)) : ∀ part ∈ effects, K part
  done : P (pure ())
  next {first rest : Act Unit} (h : P first) (hrest : P rest) : P (first >>= fun _ => rest)
  warn (notice : Notice) : P (Act.warn notice)
  reject (error : EffectError) : P (Act.reject error)
  assign {op owner property : String} {value : Expr}
    (h : K (.assignment op (.property owner property) value)) :
    P (assignProperty scope op owner property value)
  create {type : String} {properties : Record} (h : K (.create type properties)) :
    P (createInstance type properties)
  remove {type id : String} (h : K (.remove type id)) : P (removeInstance type id)

namespace Scope.Composes

variable {scope : Scope} {K : Expr → Prop} {P : Act Unit → Prop}

mutual

theorem applyEffect (h : scope.Composes K P) {effect : Expr} (heffect : K effect) :
    P (applyEffect scope effect) := by
  unfold StepWorld.applyEffect
  split
  · unfold StepWorld.assign
    split
    · exact h.assign heffect
    · exact h.reject _
  · exact applyEffects h (h.parts heffect)
  · exact h.create heffect
  · exact h.remove heffect
  · exact h.warn _
  · exact h.warn _

theorem applyEffects (h : scope.Composes K P) {effects : List Expr}
    (heffects : ∀ effect ∈ effects, K effect) : P (applyEffects scope effects) := by
  match effects with
  | [] => exact h.done
  | effect :: rest =>
    obtain ⟨hfirst, hrest⟩ := List.forall_mem_cons.mp heffects
    exact h.next (applyEffect h hfirst) (applyEffects h hrest)

end

theorem applyWeighted (h : scope.Composes K P) {label : String} {weighted : List WeightedEffect}
    (hroll : ∀ w rest, P (StepWorld.applyEffect scope w.effect) →
      P (StepWorld.applyWeighted scope label rest) →
      P (StepWorld.applyWeighted scope label (w :: rest)))
    (hweighted : ∀ w ∈ weighted, K w.effect) :
    P (StepWorld.applyWeighted scope label weighted) := by
  induction weighted with
  | nil => exact h.done
  | cons w rest ih =>
    obtain ⟨hfirst, hrest⟩ := List.forall_mem_cons.mp hweighted
    exact hroll w rest (h.applyEffect hfirst) (ih hrest)

theorem callAct (h : scope.Composes K P) {c : Call}
    (heffect : ∀ effect, c.event.effect = some effect → K effect)
    (hweighted : P (StepWorld.applyWeighted scope (c.entity.name ++ "." ++ c.event.name)
      c.event.weighted)) : P (c.act scope) := by
  unfold Call.act
  cases he : c.event.effect with
  | none => exact hweighted
  | some effect => exact h.next (h.applyEffect (heffect effect he)) hweighted

end Scope.Composes

/-- What holds of computations, passed on by what rules are made of whose expressions are of a
kind. -/
structure RuleAct.Composes (K : Expr → Prop) (P : ∀ α : Type, RuleAct α → Prop) : Prop where
  parts {e part : Expr} (h : K e) (hpart : part ∈ e.children) : K part
  done {α : Type} (a : α) : P α (pure a)
  next {α β : Type} {first : RuleAct α} {rest : α → RuleAct β} (h : P α first)
    (hrest : ∀ a, P β (rest a)) : P β (first >>= rest)
  holds {condition : Expr} (h : K condition) : P Bool (RuleAct.holds condition)
  raise {flag : String} (h : flag ∈ terminalFlags) : P Unit (modify (·.raiseFlag flag))

namespace RuleAct.Composes

variable {K : Expr → Prop} {P : ∀ α : Type, RuleAct α → Prop}

mutual

theorem applyRuleEffect (h : Composes K P) {effect : Expr} (heffect : K effect) :
    P Unit (applyRuleEffect effect) := by
  unfold StepWorld.applyRuleEffect
  split
  · exact applyRuleEffects h fun part hpart => h.parts heffect hpart
  · next op condition flag =>
    have hcondition : K condition := h.parts heffect List.mem_cons_self
    split
    · next hop =>
      refine h.next (h.holds hcondition) fun met => ?_
      split
      · exact h.raise hop.2
      · exact h.done _
    · exact h.done _
  · exact h.done _

theorem applyRuleEffects (h : Composes K P) {effects : List Expr}
    (heffects : ∀ effect ∈ effects, K effect) : P Unit (applyRuleEffects effects) := by
  match effects with
  | [] => exact h.done _
  | effect :: rest =>
    obtain ⟨hfirst, hrest⟩ := List.forall_mem_cons.mp heffects
    exact h.next (applyRuleEffect h hfirst) fun _ => applyRuleEffects h hrest

end

theorem temporalNotices (h : Composes K P) {clauses : List TemporalClause}
    (hclauses : ∀ c ∈ clauses, K c.toExpr) : P _ (temporalNotices clauses) := by
  induction clauses with
  | nil => exact h.done _
  | cons c rest ih =>
    obtain ⟨hfirst, hrest⟩ := List.forall_mem_cons.mp hclauses
    exact h.next (h.holds hfirst) fun _ => h.next (ih hrest) fun _ => h.done _

theorem act (h : Composes K P) {rule : RuleDecl}
    (heffect : ∀ effect, rule.effect = some effect → K effect)
    (htemporal : ∀ c ∈ rule.temporal, K c.toExpr) : P _ rule.act := by
  have hnotices : P _ (do
      return (← StepWorld.temporalNotices rule.temporal) ++ probabilityNotices rule.probability) :=
    h.next (h.temporalNotices htemporal) fun _ => h.done _
  unfold RuleDecl.act
  split
  · next effect he => exact h.next (h.applyRuleEffect (heffect effect he)) fun _ => hnotices
  · exact hnotices

end RuleAct.Composes

namespace Arena

def inhabitants (a : Arena) (id type : String) : List Instance :=
  (a.world? id).elim [] (·.instances type)

theorem instance?_eq (a : Arena) (id type instanceId : String) :
    a.instance? id type instanceId = (a.inhabitants id type).find? (·.id == instanceId) := by
  unfold instance? inhabitants
  cases a.world? id <;> rfl

end Arena

namespace StepTarget

def eventRequest (t : StepTarget) (type id event : String) : Request :=
  ⟨t.specification, some t.world, some type, some id, some event, none, []⟩

def ruleRequest (t : StepTarget) (name : String) : Request :=
  ⟨t.specification, some t.world, none, none, none, some name, []⟩

theorem rules_of {t : StepTarget} {P : Stepping Unit → Prop} (hdone : P (pure ()))
    (hrule : ∀ name rest, P rest → P (do
      let o ← Stepping.run (runRule t.programs (t.ruleRequest name))
      modify (·.countRule name o)
      rest)) (rules : List RuleDecl) : P (t.rules rules) := by
  induction rules with
  | nil => exact hdone
  | cons rule rest ih => exact hrule rule.name _ ih

/-- What holds of computations, passed on by what comes of the events of a step. Of its world a step
looks at no more than the instances of one type at a time. -/
structure Composes (t : StepTarget) (P : Stepping Unit → Prop) : Prop where
  done : P (pure ())
  next {first rest : Stepping Unit} (h : P first) (hrest : P rest) : P (first >>= fun _ => rest)
  look {type : String} {k : List Instance → Stepping Unit} (h : ∀ is, P (k is)) :
    P (get >>= fun p => k (p.arena.inhabitants t.world type))
  event (type id event : String) : P (t.event type id event)

namespace Composes

variable {t : StepTarget} {P : Stepping Unit → Prop}

theorem events (h : t.Composes P) (type id : String) (names : List String) :
    P (t.events type id names) := by
  induction names with
  | nil => exact h.done
  | cons name rest ih => exact h.next (h.event type id name) ih

theorem instances (h : t.Composes P) (type : String) (is : List Instance) :
    P (t.instances type is) := by
  induction is with
  | nil => exact h.done
  | cons i rest ih =>
    unfold StepTarget.instances
    simp only [Arena.instance?_eq]
    refine h.look (k := fun is => if (is.find? (·.id == i.id)).isSome then do
      t.events type i.id i.events
      t.instances type rest else t.instances type rest) fun is => ?_
    split
    · exact h.next (h.events type i.id i.events) ih
    · exact ih

theorem entities (h : t.Composes P) (entities : List EntityDecl) : P (t.entities entities) := by
  induction entities with
  | nil => exact h.done
  | cons entity rest ih =>
    exact h.look (k := fun is => do
      t.instances entity.name is
      t.entities rest) fun is => h.next (h.instances entity.name is) ih

theorem program (h : t.Composes P) (hrules : ∀ rules, P (t.rules rules)) (p : Program) :
    P (t.program p) := h.next (h.entities p.entities) (hrules p.rules)

end Composes

end StepTarget

end StepWorld
