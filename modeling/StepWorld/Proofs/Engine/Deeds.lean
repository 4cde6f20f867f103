import StepWorld.Proofs.Engine.Bookkeeping
import StepWorld.Proofs.Engine.Stirring
import StepWorld.Proofs.Syntax.Populations

/-! What can be done with an engine from its creation on, and what holds of its registry then. Every
simulation stands under its own id, which no other one is given, and every program was read from a
source. -/

namespace StepWorld

/-- What a caller does with an engine. The worlds can be changed directly in any way: created,
updated, reset, appended to and deleted. New ids may be given out meanwhile. An event or a rule may
be run under the lock of a world. -/
inductive Deed where
  | register (source : String) (name description : Option String)
  | revise (id : String) (source name description : Option String)
  | withdraw (id : String)
  | life (c : LifecycleCall)
  | step (id : String)
  | sleep (seconds : Float)
  | lock (id : String)
  | runEvent (r : Request)
  | runRule (r : Request)
  | close
  | clear
  | disturb (f : Arena → Arena) (h : ∀ a : Arena, a.ambient.Advances (f a).ambient)

namespace Table

variable {t u : Table Simulation} {issued : Nat}

def Filed (issued : Nat) (t : Table Simulation) : Prop :=
  ∀ id s, t.get? id = some s → s.id = id ∧ ∃ n ≤ issued, id = numberedId "sim" n

namespace Filed

theorem nil : Filed issued [] := by
  intro id s hs
  cases hs

theorem later (h : Filed issued t) {issued' : Nat} (hle : issued ≤ issued') : Filed issued' t := by
  intro id s hs
  obtain ⟨hid, n, hn, hname⟩ := h id s hs
  exact ⟨hid, n, Nat.le_trans hn hle, hname⟩

theorem goOn {P : String → String → Prop} (h : Filed issued t) (hu : Table.GoOn P t u) : Filed issued u := by
  intro id s hs
  obtain ⟨before, hbefore, hgoes⟩ := hu id s hs
  obtain ⟨hid, hname⟩ := h id before hbefore
  exact ⟨hgoes.id.trans hid, hname⟩

theorem modify (h : Filed issued t) (id : String) {f : Simulation → Simulation}
    (hf : ∀ s, (f s).id = s.id) : Filed issued (t.modify id f) := by
  intro k s hs
  rw [Table.get?_modify] at hs
  split at hs
  · obtain ⟨before, hbefore, rfl⟩ := Option.map_eq_some_iff.mp hs
    obtain ⟨hid, hname⟩ := h k before hbefore
    exact ⟨(hf before).trans hid, hname⟩
  · exact h k s hs

theorem remove (h : Filed issued t) (id : String) : Filed issued (t.remove id) :=
  fun k s hs => h k s (get?_of_remove hs).2

theorem put (h : Filed issued t) {id : String} {s : Simulation} (hid : s.id = id)
    (hname : ∃ n ≤ issued, id = numberedId "sim" n) : Filed issued (t.put id s) :=
  forall_get?_put ⟨hid, hname⟩ fun k found _ hfound => h k found hfound

theorem putAll (h : Filed issued t) (hu : Filed issued u) (hnodup : u.keys.Nodup)
    (entries : Table Simulation) (hentries : ∀ entry ∈ entries, entry ∈ u) :
    Filed issued (t.putAll entries) := by
  intro id s hs
  rcases mem_or_get?_of_putAll hs with hmem | hs
  · exact hu id s (get?_of_mem hnodup (hentries _ hmem))
  · exact h id s hs

end Filed

end Table

namespace Engine

def after (e : Engine) : Deed → Engine
  | .register source name description => (e.register source name description).2
  | .revise id source name description =>
    match e.revise id source name description with
    | .ok f => f
    | .error _ => e
  | .withdraw id => (e.deleteSpecification? id).getD e
  | .life c => (e.perform c).2
  | .step id => (e.simulations.get? id).elim e fun s => (e.step s).2
  | .sleep seconds => e.sleepFor seconds
  | .lock id => e.reschedule (·.lock id)
  | .runEvent r => (e.runEvent r).2
  | .runRule r => (e.runRule r).2
  | .close => (e.call close).2
  | .clear => e.clear
  | .disturb f _ => { e with arena := f e.arena }

def afterAll (e : Engine) (deeds : List Deed) : Engine := deeds.foldl after e

/-- An engine to which some deeds lead from its creation. -/
def Reachable (e : Engine) : Prop :=
  ∃ settings environment chance archive listener deeds,
    e = (create settings environment chance archive listener).afterAll deeds

variable {e f : Engine}

theorem after_create (e : Engine) (specification : String) (o : SimulationOptions) :
    e.after (.life (.create specification o)) =
      (e.call (createSimulation specification o)).2 := call_discard _

theorem after_step {id : String} {s : Simulation} (hs : e.simulations.get? id = some s) :
    e.after (.step id) = (e.step s).2 := by
  rw [after, hs]
  rfl

/-! ### What stays -/

structure Persists (e f : Engine) : Prop where
  settings : f.settings = e.settings
  listener : f.listener = e.listener
  ambient : e.arena.ambient.Advances f.arena.ambient

namespace Persists

theorem refl (e : Engine) : Persists e e := ⟨rfl, rfl, Std.Refl.refl _⟩

theorem trans {g : Engine} (h : Persists e f) (h' : Persists f g) : Persists e g :=
  ⟨h'.settings.trans h.settings, h'.listener.trans h.listener, Trans.trans h.ambient h'.ambient⟩

end Persists

theorem persists_step (e : Engine) (s : Simulation) : Persists e (e.step s).2 := by
  obtain ⟨arena, u, hstep, hadvances, -⟩ := e.step_alters s
  rw [hstep]
  exact ⟨rfl, rfl, hadvances.ambient⟩

theorem Aside.persists {P : String → String → Prop} (h : Aside P e f) : Persists e f :=
  ⟨h.settings, h.listener, h.ambient⟩

namespace Stirs

theorem persists (h : Stirs e f) : Persists e f := by
  cases h with
  | aside h | refused h => exact h.persists
  | @step k s => exact persists_step e s
  | @broken k s error _ _ _ h => exact (persists_step e s).trans h.persists
  | drop | forget => exact ⟨rfl, rfl, Std.Refl.refl _⟩
  | write => exact ⟨rfl, rfl, (Arena.advances_update e.arena _ _).ambient⟩
  | add hp o => exact ⟨rfl, rfl, ambient_addSimulation e _ _ o⟩

theorem specifications (h : Stirs e f) : f.specifications = e.specifications := by
  cases h with
  | aside h | refused h => exact h.specifications
  | @step k s => exact (touches_step e s).specifications
  | @broken k s error _ _ _ h => exact h.specifications.trans (touches_step e s).specifications
  | drop | write | add | forget => rfl

end Stirs

theorem persists_stirred (h : Stirred e f) : Persists e f := by
  induction h with
  | refl => exact .refl e
  | tail _ hstep ih => exact ih.trans hstep.persists

theorem specifications_stirred (h : Stirred e f) : f.specifications = e.specifications := by
  induction h with
  | refl => rfl
  | tail _ hstep ih => exact hstep.specifications.trans ih

/-! ### What a deed comes down to -/

/-- What a deed may come down to. Whatever fails leaves it at what happens anyway. -/
inductive Deals (e : Engine) : Deed → Engine → Prop
  | stirred {d : Deed} {f : Engine} (h : Stirred e f) : Deals e d f
  | registered {source : String} {name description : Option String} {n : Nat}
      {spec : Specification} {f g : Engine} (hf : Aside (fun _ _ => False) e f)
      (hfresh : e.arena.ambient.issued < n) (hn : n ≤ f.arena.ambient.issued)
      (hsource : registrable source = .ok spec.program)
      (hg : Aside (fun _ _ => False) (f.install (numberedId "spec" n) spec) g) :
    Deals e (.register source name description) g
  | renamed {id : String} {name description : Option String} {s : Specification}
      (spec : Specification) (hs : e.specifications.get? id = some s)
      (hprogram : spec.program = s.program) :
    Deals e (.revise id none name description)
      { e.tick.2 with specifications := e.specifications.put id spec }
  | rewritten {id source : String} {name description : Option String} {s : Specification}
      (spec : Specification) (hs : e.specifications.get? id = some s)
      (hsource : registrable source = .ok spec.program) :
    Deals e (.revise id (some source) name description) (e.tick.2.install id spec)
  | withdrawn {id : String} {s : Specification} (hs : e.specifications.get? id = some s) :
    Deals e (.withdraw id)
      { e with
        specifications := e.specifications.remove id
        schedule := e.schedule.unlock id
        arena := e.arena.delete id }
  | event (r : Request) : Deals e (.runEvent r) (e.runEvent r).2
  | rule (r : Request) : Deals e (.runRule r) (e.runRule r).2
  | cleared : Deals e .clear e.clear
  | disturbed {f : Arena → Arena} (hf : ∀ a : Arena, a.ambient.Advances (f a).ambient) :
    Deals e (.disturb f hf) { e with arena := f e.arena }

theorem deals_register (e : Engine) (source : String) (name description : Option String) :
    Deals e (.register source name description) (e.register source name description).2 := by
  unfold Engine.register
  split
  · split
    · exact .stirred (aside_print e _ _).stirred
    · exact .stirred .refl
  · next program hsource =>
    have hissue : Aside (fun _ _ => False) e.tick.2 (e.tick.2.issue "spec").2 :=
      { Aside.refl e.tick.2 with ambient := e.tick.2.arena.ambient.advances_issue "spec" }
    exact .registered ((aside_tick e).trans hissue) (Nat.lt_succ_self _) (Nat.le_refl _) hsource
      (aside_print _ _ _)

theorem deals_revise (e : Engine) (id : String) (source name description : Option String) :
    Deals e (.revise id source name description)
      (e.after (.revise id source name description)) := by
  have hstays : Deals e (.revise id source name description) e := .stirred .refl
  cases hs : e.specifications.get? id with
  | none =>
    simp only [after, Engine.revise, hs]
    exact hstays
  | some s =>
    cases source with
    | none =>
      simp only [after, Engine.revise, hs]
      exact .renamed (s.revise s.source s.program name description e.tick.1) hs rfl
    | some source =>
      cases hsource : registrable source with
      | error refusal =>
        simp only [after, Engine.revise, hs, hsource]
        exact hstays
      | ok program =>
        simp only [after, Engine.revise, hs, hsource]
        exact .rewritten (s.revise source program name description e.tick.1) hs hsource

theorem deals_after (e : Engine) (d : Deed) : Deals e d (e.after d) := by
  cases d with
  | register source name description => exact deals_register e source name description
  | revise id source name description => exact deals_revise e id source name description
  | withdraw id =>
    cases hs : e.specifications.get? id with
    | none =>
      simp only [after, deleteSpecification?, hs]
      exact .stirred .refl
    | some spec =>
      simp only [after, deleteSpecification?, hs]
      exact .withdrawn hs
  | life c => exact .stirred (stirred_perform e c)
  | step id =>
    cases hs : e.simulations.get? id with
    | none =>
      simp only [after, hs]
      exact .stirred .refl
    | some s =>
      simp only [after, hs]
      exact .stirred (.single (.step (k := id) (runner?_own hs)))
  | sleep seconds => exact .stirred (passes_sleepFor seconds e).stirred
  | lock id => exact .stirred (aside_reschedule e (·.lock id)).stirred
  | runEvent r => exact .event r
  | runRule r => exact .rule r
  | close => exact .stirred (stirs_close e)
  | clear => exact .cleared
  | disturb f hf => exact .disturbed hf

theorem persists_install (e : Engine) (id : String) (spec : Specification) :
    Persists e (e.install id spec) := ⟨rfl, rfl, e.arena.ambient.advances_tick⟩

theorem Deals.persists {d : Deed} (h : Deals e d f) : Persists e f := by
  have htick : Persists e e.tick.2 := ⟨rfl, rfl, e.arena.ambient.advances_tick⟩
  cases h with
  | stirred h => exact persists_stirred h
  | registered hf _ _ _ hg => exact (hf.persists.trans (persists_install _ _ _)).trans hg.persists
  | renamed => exact ⟨rfl, rfl, htick.ambient⟩
  | rewritten => exact htick.trans (persists_install e.tick.2 _ _)
  | withdrawn | cleared => exact ⟨rfl, rfl, Std.Refl.refl _⟩
  | event r => exact ⟨rfl, rfl, (advances_runEvent e.programs r e.arena).ambient⟩
  | rule r => exact ⟨rfl, rfl, (advances_runRule e.programs r e.arena).ambient⟩
  | disturbed hf => exact ⟨rfl, rfl, hf e.arena⟩

/-! ### The registry -/

theorem specificationId_ne (m n : Nat) : numberedId "spec" m ≠ numberedId "sim" n :=
  (IsSimulationId.ne ⟨n, rfl⟩ (by simp [numberedId, String.toList_append])).symm

/-- Every simulation stands under its own id, detached or not, every result under that of a
simulation, and every program was read from a source. -/
structure Registered (e : Engine) : Prop where
  distinct : e.simulations.keys.Nodup
  filed : e.simulations.Filed e.arena.ambient.issued
  loose : e.detached.Filed e.arena.ambient.issued
  apart : ∀ id, (e.simulations.get? id).isSome → e.detached.get? id = none
  results : ∀ id r, e.results.get? id = some r →
    ∃ n ≤ e.arena.ambient.issued, id = numberedId "sim" n
  sourced : ∀ id spec, e.specifications.get? id = some spec →
    (∃ source, registrable source = .ok spec.program) ∧
      ∃ n ≤ e.arena.ambient.issued, id = numberedId "spec" n

theorem ne_addSimulation {id : String}
    (hname : ∃ n ≤ e.arena.ambient.issued, id = numberedId "sim" n) (specification : String)
    (program : Program) (o : SimulationOptions) :
    id ≠ (e.addSimulation specification program o).1.id := by
  obtain ⟨n, hn, rfl⟩ := hname
  intro heq
  have heq : numberedId "sim" n = numberedId "sim" (e.arena.ambient.issued + 1) := heq
  have := numberedId_injective heq
  omega

theorem runner?_addSimulation {id specification : String} {program : Program}
    {o : SimulationOptions} (h : id ≠ (e.addSimulation specification program o).1.id) :
    (e.addSimulation specification program o).2.runner? id = e.runner? id := by
  change ((e.simulations.put (e.addSimulation specification program o).1.id
    (e.addSimulation specification program o).1).get? id).or (e.detached.get? id) = _
  rw [Table.get?_put, if_neg h]
  rfl

theorem detached_forget (e : Engine) {k id : String} {s : Simulation}
    (h : (e.forget k).detached.get? id = some s) :
    id = k ∧ e.simulations.get? id = some s ∨ e.detached.get? id = some s := by
  unfold Engine.forget at h
  dsimp only at h
  split at h
  · next own hown =>
    split at h
    · rw [Table.get?_put] at h
      split at h
      · next heq =>
        cases h
        exact .inl ⟨heq, heq ▸ hown⟩
      · exact .inr h
    · exact .inr h
  · exact .inr h

namespace Registered

theorem sourcedLater (h : e.Registered) {issued : Nat} (hle : e.arena.ambient.issued ≤ issued)
    (id : String) (spec : Specification) (hspec : e.specifications.get? id = some spec) :
    (∃ source, registrable source = .ok spec.program) ∧
      ∃ n ≤ issued, id = numberedId "spec" n := by
  obtain ⟨hsource, n, hn, hid⟩ := h.sourced id spec hspec
  exact ⟨hsource, n, Nat.le_trans hn hle, hid⟩

theorem resultsLater (h : e.Registered) {issued : Nat} (hle : e.arena.ambient.issued ≤ issued)
    (id : String) (r : SimulationResult) (hr : e.results.get? id = some r) :
    ∃ n ≤ issued, id = numberedId "sim" n := by
  obtain ⟨n, hn, hid⟩ := h.results id r hr
  exact ⟨n, Nat.le_trans hn hle, hid⟩

theorem stepped (h : e.Registered) {arena : Arena} (ha : e.arena.Advances arena) (id : String)
    {u : Simulation → Simulation} (hu : ∀ t, (u t).id = t.id) :
    (e.stepped id arena u).Registered where
  distinct := by
    change (e.simulations.modify id u).keys.Nodup
    rw [Table.keys_modify]
    exact h.distinct
  filed := (h.filed.later ha.ambient.issued).modify id hu
  loose := (h.loose.later ha.ambient.issued).modify id hu
  apart k hk := by
    have hk : ((e.simulations.modify id u).get? k).isSome := hk
    change (e.detached.modify id u).get? k = none
    rw [Table.isSome_get?_modify] at hk
    rw [Table.get?_modify, h.apart k hk]
    split <;> rfl
  results := h.resultsLater ha.ambient.issued
  sourced := h.sourcedLater ha.ambient.issued

theorem step (h : e.Registered) (s : Simulation) : (e.step s).2.Registered := by
  obtain ⟨arena, u, hstep, hadvances, hu⟩ := e.step_alters s
  rw [hstep]
  refine h.stepped hadvances s.id fun t => ?_
  obtain ⟨_, _, hut⟩ := hu t
  rw [hut]

theorem runner (h : e.Registered) {k : String} {s : Simulation} (hs : e.runner? k = some s) :
    s.id = k ∧ ∃ n ≤ e.arena.ambient.issued, k = numberedId "sim" n := by
  rcases Option.or_eq_some_iff.mp hs with hs | ⟨-, hs⟩
  · exact h.filed k s hs
  · exact h.loose k s hs

theorem aside {P : String → String → Prop} (h : e.Registered) (hf : Aside P e f) : f.Registered where
  distinct := hf.registered ▸ h.distinct
  filed := (h.filed.goOn hf.simulations).later hf.ambient.issued
  loose := (h.loose.goOn hf.detached).later hf.ambient.issued
  apart id hid := by
    obtain ⟨s, hs⟩ := Option.isSome_iff_exists.mp hid
    obtain ⟨before, hbefore, -⟩ := hf.simulations id s hs
    have hnone := h.apart id (Option.isSome_of_eq_some hbefore)
    cases hget : f.detached.get? id with
    | none => rfl
    | some t =>
      obtain ⟨old, hold, -⟩ := hf.detached id t hget
      cases hnone.symm.trans hold
  results id r hr := by
    rcases hf.results id r hr with hr | ⟨s, hs, -⟩
    · exact h.resultsLater hf.ambient.issued id r hr
    · obtain ⟨-, n, hn, hid⟩ := h.runner hs
      exact ⟨n, Nat.le_trans hn hf.ambient.issued, hid⟩
  sourced := hf.specifications ▸ h.sourcedLater hf.ambient.issued

theorem onArena (h : e.Registered) {arena : Arena} (ha : e.arena.ambient.Advances arena.ambient) :
    { e with arena }.Registered :=
  ⟨h.distinct, h.filed.later ha.issued, h.loose.later ha.issued, h.apart,
    h.resultsLater ha.issued, h.sourcedLater ha.issued⟩

theorem runner_of_loose (h : e.Registered) {k : String} {s : Simulation}
    (hs : e.detached.get? k = some s) : e.runner? k = some s := by
  unfold runner?
  cases hget : e.simulations.get? k with
  | none => exact hs
  | some t => cases (h.apart k (by rw [hget]; rfl)).symm.trans hs

theorem runner_forget (h : e.Registered) {k id : String} {s : Simulation}
    (ht : (e.forget k).runner? id = some s) : e.runner? id = some s := by
  rcases Option.or_eq_some_iff.mp ht with ht | ⟨-, ht⟩
  · exact runner?_own (Table.get?_of_remove ht).2
  · rcases e.detached_forget ht with ⟨-, hown⟩ | hloose
    · exact runner?_own hown
    · exact h.runner_of_loose hloose

theorem runner_clear (h : e.Registered) {id : String} {s : Simulation}
    (hs : e.clear.runner? id = some s) : e.runner? id = some s := by
  have hget : (e.detached.putAll (e.simulations.filter fun entry => e.pending entry.1)).get? id =
      some s := hs
  rcases Table.mem_or_get?_of_putAll hget with hmem | hloose
  · have hown := Table.get?_of_mem h.distinct (List.mem_filter.mp hmem).1
    exact runner?_own hown
  · exact h.runner_of_loose hloose

theorem fresh (h : e.Registered) {n : Nat} (hn : e.arena.ambient.issued < n) :
    e.simulations.get? (numberedId "sim" n) = none ∧ e.detached.get? (numberedId "sim" n) = none := by
  have hnone {t : Table Simulation} (ht : t.Filed e.arena.ambient.issued) :
      t.get? (numberedId "sim" n) = none := by
    cases hget : t.get? (numberedId "sim" n) with
    | none => rfl
    | some s =>
      obtain ⟨-, m, hm, hname⟩ := ht _ s hget
      have := numberedId_injective hname
      omega
  exact ⟨hnone h.filed, hnone h.loose⟩

theorem add (h : e.Registered) (specification : String) (program : Program)
    (o : SimulationOptions) : (e.addSimulation specification program o).2.Registered := by
  have hambient := e.ambient_addSimulation specification program o
  have hissued := e.issued_addSimulation specification program o
  obtain ⟨-, hloose⟩ := h.fresh (Nat.lt_succ_self e.arena.ambient.issued)
  refine ⟨Table.nodup_keys_put h.distinct _ _, ?_, h.loose.later hambient.issued, ?_,
    h.resultsLater hambient.issued, h.sourcedLater hambient.issued⟩
  · exact (h.filed.later hambient.issued).put rfl ⟨_, hissued, rfl⟩
  · intro id hid
    have hid : ((e.simulations.put (numberedId "sim" (e.arena.ambient.issued + 1))
      (e.addSimulation specification program o).1).get? id).isSome := hid
    change e.detached.get? id = none
    rw [Table.get?_put] at hid
    split at hid
    · next heq => exact heq ▸ hloose
    · exact h.apart id hid

theorem forget (h : e.Registered) (id : String) : (e.forget id).Registered where
  distinct := h.distinct.sublist (List.filter_sublist.map _)
  filed := h.filed.remove id
  loose k s hs := by
    rcases e.detached_forget hs with ⟨-, hs⟩ | hs
    · exact h.filed k s hs
    · exact h.loose k s hs
  apart k hk := by
    have hk : ((e.simulations.remove id).get? k).isSome := hk
    rw [Table.get?_remove] at hk
    split at hk
    · cases hk
    · next hne =>
      refine Option.eq_none_iff_forall_ne_some.mpr fun s hs => ?_
      rcases e.detached_forget hs with ⟨heq, -⟩ | hs
      · exact hne heq
      · cases (h.apart k hk).symm.trans hs
  results k r hr := h.results k r (Table.get?_of_remove hr).2
  sourced := h.sourced

theorem stirs (h : e.Registered) (hf : Stirs e f) : f.Registered := by
  cases hf with
  | aside ha | refused ha => exact h.aside ha
  | step => exact h.step _
  | broken _ _ ha => exact (h.step _).aside ha
  | drop => exact h.onArena (Std.Refl.refl _)
  | write => exact h.onArena (Arena.advances_update e.arena _ _).ambient
  | add hp o => exact h.add _ _ o
  | forget k => exact h.forget k

theorem stirred (h : e.Registered) (hf : Stirred e f) : f.Registered := by
  induction hf with
  | refl => exact h
  | tail _ hstep ih => exact ih.stirs hstep

theorem put (h : e.Registered) {id source : String} {spec : Specification}
    (hsource : registrable source = .ok spec.program)
    (hid : ∃ n ≤ e.arena.ambient.issued, id = numberedId "spec" n) :
    { e with specifications := e.specifications.put id spec }.Registered :=
  ⟨h.distinct, h.filed, h.loose, h.apart, h.results,
    Table.forall_get?_put ⟨⟨source, hsource⟩, hid⟩ fun k found _ hk => h.sourced k found hk⟩

theorem install (h : e.Registered) {id source : String} {spec : Specification}
    (hsource : registrable source = .ok spec.program)
    (hid : ∃ n ≤ e.arena.ambient.issued, id = numberedId "spec" n) :
    (e.install id spec).Registered :=
  (h.put hsource hid).onArena e.arena.ambient.advances_tick

theorem withdraw (h : e.Registered) (id : String) :
    { e with
      specifications := e.specifications.remove id
      schedule := e.schedule.unlock id }.Registered :=
  ⟨h.distinct, h.filed, h.loose, h.apart, h.results,
    fun k found hk => h.sourced k found (Table.get?_of_remove hk).2⟩

theorem clear (h : e.Registered) : e.clear.Registered where
  distinct := List.nodup_nil
  filed := .nil
  loose := h.loose.putAll h.filed h.distinct _ fun entry hentry => (List.mem_filter.mp hentry).1
  apart id hid := by cases hid
  results id r hr := by cases hr
  sourced id spec hspec := by cases hspec

theorem deals (h : e.Registered) {d : Deed} (hd : Deals e d f) : f.Registered := by
  cases hd with
  | stirred hf => exact h.stirred hf
  | registered hf _ hn hsource hg => exact ((h.aside hf).install hsource ⟨_, hn, rfl⟩).aside hg
  | renamed spec hs hprogram =>
    obtain ⟨⟨source, hsource⟩, hid⟩ := h.sourced _ _ hs
    exact (h.aside (aside_tick (P := fun _ _ => False) e)).put (hprogram ▸ hsource) hid
  | rewritten spec hs hsource =>
    obtain ⟨-, hid⟩ := h.sourced _ _ hs
    exact (h.aside (aside_tick (P := fun _ _ => False) e)).install hsource hid
  | withdrawn => exact (h.withdraw _).onArena (Std.Refl.refl _)
  | event r => exact h.onArena (advances_runEvent e.programs r e.arena).ambient
  | rule r => exact h.onArena (advances_runRule e.programs r e.arena).ambient
  | cleared => exact h.clear
  | disturbed hf => exact h.onArena (hf e.arena)

theorem afterAll (h : e.Registered) (deeds : List Deed) : (e.afterAll deeds).Registered := by
  induction deeds generalizing e with
  | nil => exact h
  | cons d rest ih => exact ih (h.deals (deals_after e d))

end Registered

theorem Reachable.registered (h : e.Reachable) : e.Registered := by
  obtain ⟨settings, environment, chance, archive, listener, deeds, rfl⟩ := h
  have hcreated : (create settings environment chance archive listener).Registered := by
    refine ⟨List.nodup_nil, .nil, .nil, fun id hid => ?_, fun id r hr => ?_,
      fun id spec hspec => ?_⟩
    · cases hid
    · cases hr
    · cases hspec
  exact hcreated.afterAll deeds

end Engine

end StepWorld
