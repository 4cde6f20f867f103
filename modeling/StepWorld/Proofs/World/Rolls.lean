import StepWorld.Proofs.World.Effects

/-! The rolls of an event. Each weighted effect takes one draw, whether it fires or not, and what
comes before it is the same event with fewer weighted effects. -/

namespace StepWorld

namespace Chance

def after (chance : Chance) : Nat → Chance
  | 0 => chance
  | n + 1 => chance.draw.2.after n

def drawn (chance : Chance) (n : Nat) : Nat := (chance.after n).draw.1

end Chance

def WeightedEffect.firesOn (w : WeightedEffect) (k : Nat) : Bool :=
  nearest false k (twoPow 53) < w.weight

/-- A stage after a draw, which is shown if that is wanted. -/
def Stage.roll (s : Stage) (label : String) (w : WeightedEffect) : Stage :=
  { s with ambient := s.ambient.draw.2.debug .random fun _ =>
      label ++ " roll " ++ thousandthsText s.ambient.chance.draw.1 (twoPow 53) ++ " vs " ++
        floatText w.weight ++ " -> " ++ if w.firesOn s.ambient.chance.draw.1 then "fire" else "skip" }

theorem Ambient.chance_debug (a : Ambient) (kind : LineKind) (message : Unit → String) :
    (a.debug kind message).chance = a.chance := by
  unfold debug
  split <;> rfl

theorem Ambient.chance_draw (a : Ambient) : a.draw.2.chance = a.chance.draw.2 := rfl

namespace Stage

theorem chance_roll (s : Stage) (label : String) (w : WeightedEffect) :
    (s.roll label w).ambient.chance = s.ambient.chance.draw.2 := by
  unfold roll
  dsimp only
  rw [Ambient.chance_debug, Ambient.chance_draw]

theorem roll_eq (s : Stage) (label : String) (w : WeightedEffect) :
    ∃ chance lines, s.roll label w = { s with ambient := { s.ambient with chance, lines } } := by
  unfold roll Ambient.debug
  split <;> exact ⟨_, _, rfl⟩

end Stage

section

variable {scope : Scope} {label : String} {w : WeightedEffect} {rest : List WeightedEffect}
  {s : Stage}

theorem run_applyWeighted_cons : (applyWeighted scope label (w :: rest)).run.run s =
    (if w.firesOn s.ambient.chance.draw.1 then do
        applyEffect scope w.effect
        applyWeighted scope label rest
      else applyWeighted scope label rest).run.run (s.roll label w) := rfl

theorem applyEffects_singleton (effect : Expr) :
    applyEffects scope [effect] = applyEffect scope effect := bind_pure_unit

theorem applyEffects_append (first second : List Expr) :
    applyEffects scope (first ++ second) = (do
      applyEffects scope first
      applyEffects scope second) := by
  induction first with
  | nil => rfl
  | cons effect rest ih => simp only [List.cons_append, applyEffects, ih, bind_assoc]

theorem applyWeighted_append (first second : List WeightedEffect) :
    applyWeighted scope label (first ++ second) = (do
      applyWeighted scope label first
      applyWeighted scope label second) := by
  induction first with
  | nil => rfl
  | cons w rest ih =>
    simp only [List.cons_append, applyWeighted, ih, bind_assoc]
    congr
    funext s
    congr
    funext _
    split <;> simp only [bind_assoc]

end

namespace Call

variable (c : Call) (scope : Scope)

/-- How rolls of an event are called when they are shown. -/
def label : String := c.entity.name ++ "." ++ c.event.name

/-- The same event, which ends before one of its weighted effects. -/
def upTo (n : Nat) : Call :=
  { c with event := { c.event with weighted := c.event.weighted.take n } }

theorem act_eq : c.act scope = (do
    applyEffects scope c.event.effect.toList
    applyWeighted scope c.label c.event.weighted) := by
  unfold Call.act
  cases c.event.effect with
  | none => rfl
  | some effect => rw [Option.toList_some, applyEffects_singleton]; rfl

theorem act_eq_upTo (n : Nat) : c.act scope = (do
    (c.upTo n).act scope
    applyWeighted scope c.label (c.event.weighted.drop n)) := by
  have hsplit : applyWeighted scope c.label c.event.weighted = (do
      applyWeighted scope c.label (c.event.weighted.take n)
      applyWeighted scope c.label (c.event.weighted.drop n)) := by
    rw [← applyWeighted_append, List.take_append_drop]
  rw [act_eq, act_eq, bind_assoc, hsplit]
  rfl

/-- Whether a weighted effect is applied: its event comes to it, and the draw falls below its
weight. -/
def Fires (s : Stage) (i : Nat) : Prop :=
  ∃ w t, c.event.weighted[i]? = some w ∧ ((c.upTo i).act scope).run.run s = (.ok (), t) ∧
    w.firesOn t.ambient.chance.draw.1

/-- Whether the requirement of an event is met, and what checking it leaves. -/
def check (r : Request) (a : Arena) : Except Fault Bool × Arena :=
  (Run.eval (holds defaultPlaceholder ((c.begun a).bindings (c.scope r.parameters))
    c.event.condition)).run.run a

end Call

theorem run_runEvent {programs : Programs} {r : Request} {a b : Arena} {c : Call} {o : Outcome}
    (hcall : r.call programs a.realms = .ok c)
    (hrun : (runEvent programs r).run.run a = (.ok o, b)) :
    (c.check r a = (.ok false, b) ∧ o = .skipped .requirementsNotMet) ∨
    ∃ a', c.check r a = (.ok true, a') ∧
      (c.apply r.worldId (c.scope r.parameters)).run.run a' = (.ok o, b) := by
  unfold runEvent at hrun
  rw [run_get_bind, hcall] at hrun
  dsimp only at hrun
  rw [run_get_bind] at hrun
  obtain ⟨met, a', hcheck, hrest⟩ := run_bind_eq_ok.mp hrun
  cases met with
  | false =>
    cases hrest
    exact .inl ⟨hcheck, rfl⟩
  | true => exact .inr ⟨a', hcheck, hrest⟩

end StepWorld
