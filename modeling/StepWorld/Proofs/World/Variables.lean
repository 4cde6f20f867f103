import StepWorld.Proofs.World.ChangeLog
import StepWorld.Proofs.World.Rules

/-! Events never write a variable. In a step the variables are set by its rules alone, and these see
nothing but variables. -/

namespace StepWorld

variable {k : String}

def Stage.Along (R : World → World → Prop) (s t : Stage) : Prop := R s.realm.world t.realm.world

section

variable {R : World → World → Prop}

instance [Std.Refl R] : Std.Refl (Stage.Along R) := ⟨fun s => Std.Refl.refl s.realm.world⟩

instance [Trans R R R] : Trans (Stage.Along R) (Stage.Along R) (Stage.Along R) :=
  ⟨fun {a b c} (h : R a.realm.world b.realm.world) (h' : R b.realm.world c.realm.world) =>
    (Trans.trans h h' : R _ _)⟩

variable [Std.Refl R] [Trans R R R]

theorem along_callApply (htouch : ∀ w stamp, R w (World.touch w stamp)) {a : Arena} {c : Call}
    (hrealm : a.realms.get? k = some c.realm) (scope : Scope)
    (hact : Stage.Along R (c.begun a) ((c.act scope).run.run (c.begun a)).2) :
    Arena.Along R k a ((c.apply k scope).run.run a).2 := by
  have hsettle {s : Stage} (stamped : List Change → Bool) (hs : R c.realm.world s.realm.world) :
      Arena.Along R k a (a.settle k s stamped) := by
    have hrealm' : ({ a with ambient := s.ambient } : Arena).realms.get? k = some c.realm := hrealm
    refine (Arena.Along.of_ambient a s.ambient).trans ?_
    unfold Arena.settle
    dsimp only
    split
    · exact .of_restamp htouch hrealm' hs
    · exact .of_keep hrealm' hs
  rw [c.run_apply]
  split
  all_goals
    next s hs =>
      rw [hs] at hact
      exact hsettle _ hact

theorem along_runEvent_of_act (htouch : ∀ w stamp, R w (World.touch w stamp)) {programs : Programs}
    {r : Request} {a : Arena}
    (hact : ∀ c, r.call programs a.realms = .ok c → ∀ ambient,
      Stage.Along R ⟨c.realm, [], [], [], ambient⟩
        ((c.act (c.scope r.parameters)).run.run ⟨c.realm, [], [], [], ambient⟩).2) :
    Arena.Along R r.worldId a ((runEvent programs r).run.run a).2 := by
  unfold runEvent
  rw [run_get_bind]
  cases hfound : r.call programs a.realms with
  | error e => exact .refl a
  | ok c =>
    have hrealm := (call_found hfound).1
    dsimp only
    rw [run_get_bind]
    refine Moves.bind_from (Q := fun b => b.realms = a.realms) rfl ?_ ?_
    · rintro ⟨_, ambient⟩ rfl
      exact .of_ambient a ambient
    · rintro met ⟨_, ambient⟩ rfl
      have hambient := Arena.Along.of_ambient (R := R) (k := r.worldId) a ambient
      split
      · exact hambient.trans
          (along_callApply htouch (a := ⟨a.realms, ambient⟩) hrealm _ (hact c hfound ambient))
      · exact hambient

theorem along_runEvent (hR : Stage.Allows (Stage.Along R))
    (htouch : ∀ w stamp, R w (World.touch w stamp)) (programs : Programs) (r : Request) :
    Moves (Arena.Along R r.worldId) (runEvent programs r) := fun _ =>
  along_runEvent_of_act htouch fun c _ _ => hR.callAct c _ _

end

def World.SameApart (w v : World) : Prop := ∃ entities stamp, v = { w with entities, stamp }

namespace World.SameApart

variable {u v w : World}

instance : Std.Refl SameApart := ⟨fun w => ⟨w.entities, w.stamp, rfl⟩⟩

theorem trans (h : u.SameApart v) (h' : v.SameApart w) : u.SameApart w := by
  obtain ⟨_, _, rfl⟩ := h
  obtain ⟨_, _, rfl⟩ := h'
  exact ⟨_, _, rfl⟩

instance : Trans SameApart SameApart SameApart := ⟨trans⟩

end World.SameApart

theorem Stage.allows_sameApart : Allows (Stage.Along World.SameApart) where
  drawn s _ := Std.Refl.refl s.realm.world
  shown s _ _ := Std.Refl.refl s.realm.world
  remarked s _ := Std.Refl.refl s.realm.world
  assigned s h property value _ := by
    unfold setProperty
    split
    · exact ⟨_, s.realm.world.stamp, rfl⟩
    · exact Std.Refl.refl s.realm.world
  created s _ _ _ _ := ⟨_, s.realm.world.stamp, rfl⟩
  removed s _ _ _ := ⟨_, s.realm.world.stamp, rfl⟩

abbrev Arena.KeptIn : String → Arena → Arena → Prop := Arena.Along World.SameApart

theorem kept_runEvent (programs : Programs) (r : Request) :
    Moves (Arena.KeptIn r.worldId) (runEvent programs r) :=
  along_runEvent Stage.allows_sameApart (fun _ _ => ⟨_, _, rfl⟩) programs r

/-! ### The variables after a step -/

namespace StepTarget

variable {t t' : StepTarget}

theorem worldId_eventRequest (ht : t.world ≠ "") (type id event : String) :
    (t.eventRequest type id event).worldId = t.world := by
  simp [eventRequest, Request.worldId, present?, Option.filter, ht]

theorem worldId_ruleRequest (ht : t.world ≠ "") (name : String) :
    (t.ruleRequest name).worldId = t.world := by
  simp [ruleRequest, Request.worldId, present?, Option.filter, ht]

theorem namedRule_ruleRequest {p p' : Program} (hp : t.programs t.specification = some p)
    (hp' : t'.programs t'.specification = some p') (hrules : p'.rules = p.rules) (name : String) :
    (t'.ruleRequest name).namedRule t'.programs = (t.ruleRequest name).namedRule t.programs := by
  have hfind : p'.rule? name = p.rule? name := by rw [Program.rule?, hrules]; rfl
  simp only [ruleRequest, Request.namedRule, hp, hp']
  cases h : present? (some name) with
  | none => rfl
  | some found =>
    obtain rfl : name = found := Option.some.inj (Option.eq_some_of_filter_eq_some h)
    dsimp only
    rw [hfind]

theorem mem_of_namedRule {r : Request} {programs : Programs} {p : Program} {rule : RuleDecl}
    (hp : programs r.specification = some p) (h : r.namedRule programs = .ok rule) :
    rule ∈ p.rules := by
  unfold Request.namedRule at h
  rw [hp] at h
  split at h
  · cases h
  · dsimp only at h
    split at h
    · cases h
    · next hfound =>
      cases h
      exact List.mem_of_find?_eq_some hfound

theorem agreesIn_rules {drawless : Bool} {p p' : Program} (ht : t.world ≠ "") (ht' : t'.world ≠ "")
    (hp : t.programs t.specification = some p) (hp' : t'.programs t'.specification = some p')
    (hrules : p'.rules = p.rules) (hdrawless : drawless = true → ∀ rule ∈ p.rules, rule.Drawless)
    (rules : List RuleDecl) :
    Agrees (fun q r => Arena.AlikeIn drawless t.world t'.world q.arena r.arena) (t.rules rules)
      (t'.rules rules) := by
  induction rules with
  | nil => exact .of_pure _
  | cons rule rest ih =>
    have hrun : Agrees (fun q r => Arena.AlikeIn drawless t.world t'.world q.arena r.arena)
        (Stepping.run (runRule t.programs (t.ruleRequest rule.name)))
        (Stepping.run (runRule t'.programs (t'.ruleRequest rule.name))) := by
      have hrule := agreesIn_runRule (namedRule_ruleRequest hp hp' hrules rule.name) rfl
        fun hd found hfound => hdrawless hd found (mem_of_namedRule hp hfound)
      rw [worldId_ruleRequest ht, worldId_ruleRequest ht'] at hrule
      exact fun q r hqr => hrule q.arena r.arena hqr
    refine .of_bind hrun fun o => .of_bind (.of_modify fun q r hqr => ?_) fun _ => ih
    unfold StepProgress.countRule
    dsimp only
    split <;> exact hqr

theorem along_program {R : World → World → Prop} [Std.Refl R] [Trans R R R]
    (hR : World.AllowsFlags R) (hapart : ∀ {w v : World}, w.SameApart v → R w v)
    (ht : t.world ≠ "") (p : Program) :
    Moves (StepProgress.Along (Arena.Along R t.world)) (t.program p) :=
  t.moves_program
    (fun type id event => worldId_eventRequest ht type id event ▸ fun a =>
      (kept_runEvent _ _ a).mono fun _ _ => hapart)
    (fun name => worldId_ruleRequest ht name ▸ along_runRule hR _ _) p

end StepTarget

theorem Engine.exists_worlds_of_step {R : World → World → Prop} [Std.Refl R] [Trans R R R]
    (hR : World.AllowsFlags R) (hapart : ∀ {w v : World}, w.SameApart v → R w v) {e : Engine}
    {s : Simulation} {σ : StepSummary} (hname : s.id ≠ "") (h : (e.step s).1 = .ok σ) :
    ∃ w u q arena, e.arena.world? s.id = some w ∧ R w.advance u ∧
      σ = e.ranSummary s (w.time + 1) q ∧
      (e.ranArena s q).world? s.id = some ((u.finishStep (s.currentStep + 1)
        e.settings.historyLimit q.events q.rules).touch q.arena.ambient.tick.1) ∧
      arena.realms = (e.ranArena s q).realms ∧ (e.step s).2 = e.stepped s.id arena
        fun t => { t with currentStep := s.currentStep + 1, statistics := q.total } := by
  obtain ⟨p, w, q, lines, hp, hw, hrun, hσ, hstate⟩ := step_eq_ok h
  have hprogram := StepTarget.along_program (t := ⟨e.programs, s.specification, s.id⟩) hR hapart
    hname p ⟨e.arena.keep s.id w.advance, [], [], 0, [], s.statistics⟩
  change Arena.Along R s.id (e.arena.keep s.id w.advance) (e.runOf s p w).2.arena at hprogram
  rw [hrun] at hprogram
  obtain ⟨u, hu, hwu⟩ := hprogram.own _ (Arena.world?_keep hw _)
  exact ⟨w, u, q, { e.ranArena s q with ambient := { (e.ranArena s q).ambient with lines } }, hw,
    hwu, hσ, world?_ranArena hu, rfl, hstate⟩

/-- Some rules, run one after another, lead from some variables to others, in some world. -/
structure Leads (rules : List RuleDecl) (vars vars' : Record) : Prop where
  run : ∃ (t : StepTarget) (p : Program) (s q : StepProgress) (w v : World), t.world ≠ "" ∧
    t.programs t.specification = some p ∧ p.rules = rules ∧
    s.arena.world? t.world = some w ∧ w.vars = vars ∧
    StateT.run (ExceptT.run (t.rules rules)) s = (.ok (), q) ∧
    q.arena.world? t.world = some v ∧ v.vars = vars'

theorem Leads.unique {rules : List RuleDecl} (hrules : ∀ rule ∈ rules, rule.Drawless)
    {vars first second : Record} (h : Leads rules vars first) (h' : Leads rules vars second) :
    first = second := by
  obtain ⟨t, p, s, q, w, v, ht, hp, rfl, hw, rfl, hrun, hv, rfl⟩ := h.run
  obtain ⟨t', p', s', q', w', v', ht', hp', hsame, hw', hvars, hrun', hv', rfl⟩ := h'.run
  have hab : s.arena.AlikeIn true t.world t'.world s'.arena :=
    ⟨⟨w, w', hw, hw', hvars⟩, fun hd => by cases hd⟩
  have hagrees := StepTarget.agreesIn_rules ht ht' hp hp' hsame (fun _ => hrules) p.rules s s' hab
  unfold AgreesAt at hagrees
  rw [hrun, hrun'] at hagrees
  obtain ⟨u, u', hu, hu', heq⟩ := hagrees.2.worlds
  obtain rfl := Option.some.inj (hv.symm.trans hu)
  obtain rfl := Option.some.inj (hv'.symm.trans hu')
  exact heq.symm

theorem StepTarget.program_leads {t : StepTarget} {p : Program} {s : StepProgress} {w : World}
    (ht : t.world ≠ "") (hp : t.programs t.specification = some p)
    (hw : s.arena.world? t.world = some w) :
    (∀ j, j ≠ t.world →
      (StateT.run (ExceptT.run (t.program p)) s).2.arena.realms.get? j = s.arena.realms.get? j) ∧
    ((StateT.run (ExceptT.run (t.program p)) s).1 = .ok () →
      ∃ v, (StateT.run (ExceptT.run (t.program p)) s).2.arena.world? t.world = some v ∧
        v.time = w.time ∧ Leads p.rules w.vars v.vars) := by
  have hevents := (t.composes_along (R := Arena.KeptIn t.world) fun type id event =>
    worldId_eventRequest ht type id event ▸ kept_runEvent _ _).entities p.entities s
  have hrules (q : StepProgress) := t.moves_rules (R := Arena.SparedIn t.world)
    (fun name => worldId_ruleRequest ht name ▸ spared_runRule _ _) p.rules q
  unfold StepTarget.program
  rw [run_bind]
  generalize StateT.run (ExceptT.run (t.entities p.entities)) s = result at hevents ⊢
  obtain ⟨result, q⟩ := result
  have hevents : s.arena.KeptIn t.world q.arena := hevents
  cases result with
  | error fault => exact ⟨hevents.others, fun h => by cases h⟩
  | ok =>
    have hrules : q.arena.SparedIn t.world
        (StateT.run (ExceptT.run (t.rules p.rules)) q).2.arena := hrules q
    refine ⟨fun j hj => (hrules.others j hj).trans (hevents.others j hj), fun hok => ?_⟩
    obtain ⟨_, hu, _, _, rfl⟩ := hevents.own w hw
    obtain ⟨v, hv, _, _, rfl⟩ := hrules.own _ hu
    exact ⟨_, hv, rfl, ⟨t, p, q, _, _, _, ht, hp, rfl, hu, rfl, Prod.ext hok rfl, hv, rfl⟩⟩

end StepWorld
