import StepWorld.Proofs.Engine.Deeds
import StepWorld.Proofs.Engine.Undisturbed
import StepWorld.Proofs.World.InOrder

/-! The worlds of an engine in order. Whatever is called, and whatever is asked of the worlds from
outside, each of them holds the instances that its declarations ask for. -/

namespace StepWorld

theorem Arena.ambient_grant (a : Arena) (request : Upkeep) :
    a.ambient.Advances (a.grant request).ambient := by
  have hupdate (b : Arena) (id : String) (f : World → World) :
      b.ambient.Advances (b.update id f).ambient := (advances_update b id f).ambient
  cases request with
  | touch id | setVariable id => exact hupdate ..
  | create | reset => exact a.ambient.advances_tick
  | delete | clear => exact Std.Refl.refl _
  | setProperties | removeInstance | record =>
    exact of_elim_map (P := fun b : Arena => a.ambient.Advances b.ambient) (Std.Refl.refl _)
      fun _ _ => hupdate ..
  | addInstance id type =>
    exact of_elim_map (P := fun b : Arena => a.ambient.Advances b.ambient) (Std.Refl.refl _)
      fun _ _ => Trans.trans (a.ambient.advances_issue type) (hupdate ..)

theorem Arena.ambient_grantAll (a : Arena) (requests : List Upkeep) :
    a.ambient.Advances (a.grantAll requests).ambient := by
  induction requests generalizing a with
  | nil => exact Std.Refl.refl _
  | cons request rest ih => exact Trans.trans (a.ambient_grant request) (ih (a.grant request))

def Deed.upkeep (requests : List Upkeep) : Deed :=
  .disturb (·.grantAll requests) (·.ambient_grantAll requests)

def Deed.Regular : Deed → Prop
  | .disturb f _ => ∃ requests : List Upkeep, ∀ a, f a = a.grantAll requests
  | _ => True

namespace Engine

variable {e f : Engine}

structure Housed (e : Engine) : Prop where
  registered : e.Registered
  inOrder : e.arena.InOrder

theorem Registered.sourcedRequest (h : e.Registered) (r : Request) : r.Sourced e.programs := by
  intro p hp
  obtain ⟨spec, hspec, rfl⟩ := Option.map_eq_some_iff.mp hp
  exact (h.sourced r.specification spec hspec).1

theorem Registered.lined_step (h : e.Registered) {s : Simulation} (hs : s.id ≠ "") :
    Arena.Along World.SameLineup s.id e.arena (e.step s).2.arena := by
  refine along_step e (fun _ => rfl) (fun w step limit events rules stamp => ?_)
    (fun type id event => ?_) fun name => ?_
  · unfold World.finishStep
    dsimp only
    split <;> rfl
  · have hevent := lined_runEvent (h.sourcedRequest
      (StepTarget.eventRequest ⟨e.programs, s.specification, s.id⟩ type id event))
    rwa [StepTarget.worldId_eventRequest hs] at hevent
  · have hrule := lined_runRule e.programs
      (StepTarget.ruleRequest ⟨e.programs, s.specification, s.id⟩ name)
    rwa [StepTarget.worldId_ruleRequest hs] at hrule

theorem lined_override (a : Arena) (id : String) (initial : InitialState) :
    Arena.Along World.SameLineup id a (a.override id initial) :=
  along_override (fun _ _ _ _ => rfl)
    (fun w type id properties _ =>
      World.lineup_modifyInstance (f := (·.setProperties properties)) (fun _ => rfl) w type id)
    a initial

namespace Housed

theorem aside {P : String → String → Prop} (h : e.Housed) (hf : Aside P e f) : f.Housed :=
  ⟨h.registered.aside hf, h.inOrder.of_realms hf.realms hf.ambient.issued⟩

theorem step (h : e.Housed) {s : Simulation} (hs : s.id ≠ "") : (e.step s).2.Housed := by
  obtain ⟨arena, u, hstep, hadvances, -⟩ := e.step_alters s
  have hlined := h.registered.lined_step hs
  refine ⟨h.registered.step s, ?_⟩
  rw [hstep] at hlined ⊢
  exact h.inOrder.along hadvances hlined

theorem add (h : e.Housed) (specification : String) (program : Program) (o : SimulationOptions) :
    (e.addSimulation specification program o).2.Housed := by
  refine ⟨h.registered.add specification program o, ?_⟩
  let issued := e.tick.2.issue "sim"
  have hissued : issued.2.arena.InOrder := h.inOrder.of_realms rfl (Nat.le_succ _)
  have hcreated := hissued.create issued.1 program.entities
  unfold addSimulation
  dsimp only
  cases o.initialState with
  | none => exact hcreated
  | some initial =>
    exact hcreated.along (advances_override _ _ initial) (lined_override _ _ initial)

theorem runner_ne (h : e.Housed) {k : String} {s : Simulation} (hs : e.runner? k = some s) :
    s.id ≠ "" := by
  obtain ⟨rfl, n, -, hname⟩ := h.registered.runner hs
  exact hname ▸ numberedId_ne_empty "sim" n

theorem stirs (h : e.Housed) (hf : Stirs e f) : f.Housed := by
  cases hf with
  | aside ha | refused ha => exact h.aside ha
  | step hs => exact h.step (h.runner_ne hs)
  | broken hs _ ha => exact (h.step (h.runner_ne hs)).aside ha
  | drop => exact ⟨h.registered.onArena (Std.Refl.refl _), h.inOrder.delete _⟩
  | write hr =>
    exact ⟨h.registered.stirs (.write hr), h.inOrder.grantAll [.setVariable _ _ _]⟩
  | add _ o => exact h.add _ _ o
  | forget k => exact ⟨h.registered.forget k, h.inOrder.delete k⟩

theorem stirred (h : e.Housed) (hf : Stirred e f) : f.Housed := by
  induction hf with
  | refl => exact h
  | tail _ hstep ih => exact ih.stirs hstep

theorem deals (h : e.Housed) {d : Deed} (hd : d.Regular) (hf : Deals e d f) : f.Housed := by
  refine ⟨h.registered.deals hf, ?_⟩
  cases hf with
  | stirred hf => exact (h.stirred hf).inOrder
  | @registered _ _ _ n spec _ _ ha _ _ _ hg =>
    have hinstalled := (h.aside ha).inOrder.create (numberedId "spec" n) spec.program.entities
    exact hinstalled.of_realms hg.realms hg.ambient.issued
  | renamed => exact h.inOrder.of_realms rfl (Nat.le_refl _)
  | rewritten =>
    have hticked : e.tick.2.arena.InOrder := h.inOrder.of_realms rfl (Nat.le_refl _)
    exact hticked.create _ _
  | withdrawn => exact h.inOrder.delete _
  | event r =>
    exact h.inOrder.along (advances_runEvent e.programs r e.arena)
      (lined_runEvent (h.registered.sourcedRequest r) e.arena)
  | rule r =>
    exact h.inOrder.along (advances_runRule e.programs r e.arena)
      (lined_runRule e.programs r e.arena)
  | cleared => exact fun _ _ hr => nomatch hr
  | disturbed =>
    obtain ⟨requests, hrequests⟩ := hd
    exact hrequests e.arena ▸ h.inOrder.grantAll requests

theorem afterAll (h : e.Housed) {deeds : List Deed} (hdeeds : ∀ d ∈ deeds, d.Regular) :
    (e.afterAll deeds).Housed := by
  induction deeds generalizing e with
  | nil => exact h
  | cons d rest ih =>
    exact ih (h.deals (hdeeds d List.mem_cons_self) (deals_after e d)) fun d' hd' =>
      hdeeds d' (List.mem_cons_of_mem d hd')

end Housed

theorem housed_create (settings : Settings) (environment : Environment) (chance : Chance)
    (archive : Archive) (listener : String → Nat → List Reaction) :
    (create settings environment chance archive listener).Housed :=
  ⟨Reachable.registered ⟨settings, environment, chance, archive, listener, [], rfl⟩,
    fun _ _ hr => nomatch hr⟩

end Engine

end StepWorld
