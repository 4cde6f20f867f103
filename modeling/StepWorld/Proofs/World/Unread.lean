import StepWorld.Proofs.World.Blind

/-! The lines on the console are never read. Events and rules do the same whatever was printed
before them. -/

namespace StepWorld

namespace Ambient

/-- The same surroundings with other lines on the console. -/
def Alike (a b : Ambient) : Prop := ∃ lines, b = { a with lines }

variable {a b : Ambient}

theorem Alike.refl (a : Ambient) : a.Alike a := ⟨a.lines, rfl⟩

theorem Alike.symm (h : a.Alike b) : b.Alike a := by
  obtain ⟨lines, rfl⟩ := h
  exact ⟨a.lines, rfl⟩

theorem Alike.trans {c : Ambient} (h : a.Alike b) (h' : b.Alike c) : a.Alike c := by
  obtain ⟨lines, rfl⟩ := h
  obtain ⟨lines', rfl⟩ := h'
  exact ⟨lines', rfl⟩

theorem alike_print (a : Ambient) (kind : LineKind) (message : String) :
    a.Alike (a.print kind message) := ⟨_, rfl⟩

theorem Alike.debug (h : a.Alike b) (kind : LineKind) (message : Unit → String) :
    (a.debug kind message).Alike (b.debug kind message) := by
  obtain ⟨lines, rfl⟩ := h
  unfold Ambient.debug
  have hdebugs : debugs { a with lines } = a.debugs := rfl
  rw [hdebugs]
  split <;> exact ⟨_, rfl⟩

theorem Alike.draw (h : a.Alike b) : b.draw.1 = a.draw.1 ∧ a.draw.2.Alike b.draw.2 := by
  obtain ⟨lines, rfl⟩ := h
  exact ⟨rfl, lines, rfl⟩

theorem blind_alike : Ambient.Blind Ambient.Alike where
  environment := by
    rintro a _ ⟨lines, rfl⟩
    rfl
  shown h := h.debug
  issued := by
    rintro a _ ⟨lines, rfl⟩ type
    exact ⟨rfl, lines, rfl⟩

end Ambient

namespace Stage

def Alike (s t : Stage) : Prop := ∃ ambient, s.ambient.Alike ambient ∧ t = { s with ambient }

variable {s t : Stage}

theorem Alike.ambient (h : s.Alike t) : s.ambient.Alike t.ambient := by
  obtain ⟨ambient, ha, rfl⟩ := h
  exact ha

end Stage

theorem agrees_eval {α : Type} (x : Eval α) : Agrees Stage.Alike (Act.eval x) (Act.eval x) := by
  rintro s _ ⟨_, ⟨lines, rfl⟩, rfl⟩
  unfold AgreesAt Act.eval
  simp only [ExceptT.run, ExceptT.mk, StateT.run]
  generalize x s.ambient.chance = evaluated
  obtain ⟨result, chance⟩ := evaluated
  cases result <;> exact ⟨rfl, _, ⟨lines, rfl⟩, rfl⟩

theorem agrees_debug {a b : Ambient} (h : a.Alike b) (kind : LineKind)
    (message : Unit → String) :
    Agrees Stage.Alike (modify fun s => { s with ambient := a.debug kind message } : Act Unit)
      (modify fun s => { s with ambient := b.debug kind message }) := by
  refine .of_modify ?_
  rintro s _ ⟨_, -, rfl⟩
  exact ⟨_, h.debug kind message, rfl⟩

theorem Stage.blind_alike : Stage.Blind Stage.Alike := Stage.blind_beside Ambient.blind_alike

theorem agreeable_alike (part : Expr) : part.Agreeable Stage.Alike :=
  Stage.agreeable_beside Ambient.blind_alike fun _ => agrees_eval _

theorem agrees_applyWeighted_cons {scope : Scope} {label : String} {w : WeightedEffect}
    {rest : List WeightedEffect}
    (hfirst : Agrees Stage.Alike (applyEffect scope w.effect) (applyEffect scope w.effect))
    (hrest : Agrees Stage.Alike (applyWeighted scope label rest) (applyWeighted scope label rest)) :
    Agrees Stage.Alike (applyWeighted scope label (w :: rest))
      (applyWeighted scope label (w :: rest)) := by
  unfold applyWeighted
  refine .of_get_bind fun s t hst => ?_
  obtain ⟨hdrawn, hafter⟩ := hst.ambient.draw
  generalize s.ambient.draw = drawn at hdrawn hafter ⊢
  generalize t.ambient.draw = drawn' at hdrawn hafter ⊢
  obtain ⟨k, after⟩ := drawn
  obtain ⟨_, after'⟩ := drawn'
  obtain rfl := hdrawn
  dsimp only at hafter ⊢
  generalize decide (nearest false _ (twoPow 53) < w.weight) = fired
  refine AgreesAt.bind (agrees_debug hafter _ _ s t hst) fun _ => ?_
  exact .of_ite (.of_bind hfirst fun _ => hrest) hrest

theorem agrees_callAct (c : Call) (scope : Scope) :
    Agrees Stage.Alike (c.act scope) (c.act scope) :=
  (Stage.blind_alike.composes scope).callAct (fun _ _ part _ => agreeable_alike part) <|
    (Stage.blind_alike.composes scope).applyWeighted (fun _ _ => agrees_applyWeighted_cons)
      fun _ _ part _ => agreeable_alike part

namespace Arena

def Alike (a b : Arena) : Prop := ∃ ambient, a.ambient.Alike ambient ∧ b = { a with ambient }

variable {a b : Arena}

theorem Alike.refl (a : Arena) : a.Alike a := ⟨a.ambient, .refl _, rfl⟩

theorem Alike.symm (h : a.Alike b) : b.Alike a := by
  obtain ⟨ambient, ha, rfl⟩ := h
  exact ⟨a.ambient, ha.symm, rfl⟩

theorem Alike.trans {c : Arena} (h : a.Alike b) (h' : b.Alike c) : a.Alike c := by
  obtain ⟨ambient, ha, rfl⟩ := h
  obtain ⟨ambient', ha', rfl⟩ := h'
  exact ⟨ambient', ha.trans ha', rfl⟩

theorem Alike.realms (h : a.Alike b) : b.realms = a.realms := by
  obtain ⟨ambient, -, rfl⟩ := h
  rfl

theorem Alike.world? (h : a.Alike b) (id : String) : b.world? id = a.world? id := by
  rw [Arena.world?, h.realms]
  rfl

theorem Alike.keep (h : a.Alike b) (id : String) (world : World) :
    (a.keep id world).Alike (b.keep id world) := by
  obtain ⟨ambient, ha, rfl⟩ := h
  exact ⟨ambient, ha, rfl⟩

theorem Alike.update (h : a.Alike b) (id : String) (f : World → World) :
    (a.update id f).Alike (b.update id f) := by
  obtain ⟨_, ⟨lines, rfl⟩, rfl⟩ := h
  exact ⟨_, ⟨lines, rfl⟩, rfl⟩

theorem Alike.settle (h : a.Alike b) {s t : Stage} (hst : s.Alike t) (id : String)
    (stamped : List Change → Bool) : (a.settle id s stamped).Alike (b.settle id t stamped) := by
  obtain ⟨ambient, ha, rfl⟩ := hst
  have hstage : ({ a with ambient := s.ambient } : Arena).Alike { b with ambient } := by
    obtain ⟨_, -, rfl⟩ := h
    exact ⟨ambient, ha, rfl⟩
  unfold Arena.settle
  dsimp only
  split
  · exact hstage.update _ _
  · exact hstage.keep _ _

end Arena

theorem agrees_callApply (c : Call) (id : String) (scope : Scope) :
    Agrees Arena.Alike (c.apply id scope) (c.apply id scope) := by
  intro a b hab
  obtain ⟨ambient, ha, hb⟩ := hab
  have hact := agrees_callAct c scope (c.begun a) (c.begun b) ⟨ambient, ha, by rw [hb]; rfl⟩
  unfold AgreesAt at hact ⊢
  rw [c.run_apply, c.run_apply]
  generalize (c.act scope).run.run (c.begun a) = first at hact ⊢
  generalize (c.act scope).run.run (c.begun b) = second at hact ⊢
  obtain ⟨result, s⟩ := first
  obtain ⟨_, t⟩ := second
  obtain ⟨rfl, hst⟩ := hact
  have hsettle := Arena.Alike.settle ⟨ambient, ha, hb⟩ hst id
  obtain ⟨_, -, rfl⟩ := hst
  match result with
  | .ok () => exact ⟨rfl, hsettle _⟩
  | .error (.rejected e) => exact ⟨rfl, hsettle _⟩
  | .error (.fault f) => exact ⟨rfl, hsettle _⟩

theorem agrees_runEval {α : Type} (x : Eval α) :
    Agrees Arena.Alike (Run.eval x) (Run.eval x) := by
  rintro a _ ⟨_, ⟨lines, rfl⟩, rfl⟩
  exact ⟨rfl, _, ⟨lines, rfl⟩, rfl⟩

theorem agrees_runEvent (programs : Programs) (r : Request) :
    Agrees Arena.Alike (runEvent programs r) (runEvent programs r) := by
  unfold runEvent
  refine .of_look ?_ fun a => ?_
  · rintro a _ ⟨ambient, -, rfl⟩
    rfl
  · split
    · exact .of_pure _
    · refine .of_look ?_ fun a => .of_bind (agrees_runEval _) fun met => ?_
      · rintro a _ ⟨ambient, -, rfl⟩
        rfl
      · exact .of_ite (agrees_callApply _ _ _) (.of_pure _)

theorem agrees_ruleApply (rule : RuleDecl) (realm : Realm) (id : String) (vars : Record) :
    Agrees Arena.Alike (rule.apply realm id vars) (rule.apply realm id vars) := by
  rintro a _ ⟨_, ⟨lines, rfl⟩, rfl⟩
  unfold AgreesAt RuleDecl.apply
  simp only [ExceptT.run, ExceptT.mk, StateT.run]
  generalize rule.act ⟨realm.world, vars, [], a.ambient.chance⟩ = result
  obtain ⟨result, s⟩ := result
  have hchance : ({ a with ambient := { a.ambient with chance := s.chance } } : Arena).Alike
      { a with ambient := { a.ambient with chance := s.chance, lines } } :=
    ⟨_, ⟨lines, rfl⟩, rfl⟩
  cases result with
  | ok notices => exact ⟨rfl, hchance.update _ _⟩
  | error f =>
    refine ⟨rfl, ?_⟩
    dsimp only
    split
    · exact hchance.update _ _
    · exact hchance.keep _ _

theorem agrees_runRule (programs : Programs) (r : Request) :
    Agrees Arena.Alike (runRule programs r) (runRule programs r) := by
  unfold runRule
  refine .of_look ?_ fun a => ?_
  · rintro a _ ⟨ambient, -, rfl⟩
    rfl
  · split
    · exact .of_pure _
    · refine .of_bind (agrees_runEval _) fun met => ?_
      exact .of_ite (agrees_ruleApply _ _ _ _) (.of_pure _)

def StepProgress.Alike (p q : StepProgress) : Prop := p.Beside Arena.Alike q

theorem StepTarget.agrees_program_alike (t : StepTarget) (p : Program) :
    Agrees StepProgress.Alike (t.program p) (t.program p) :=
  t.agrees_program (fun _ _ hab _ => by rw [Arena.inhabitants, hab.world?]; rfl)
    (fun _ _ _ => agrees_runEvent _ _) (fun _ => agrees_runRule _ _) p

end StepWorld
