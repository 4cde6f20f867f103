import Mathlib.Data.List.Destutter
import StepWorld.Proofs.Engine.Calls

/-! The life of simulations under any calls. Statuses follow the lifecycle, a call is done
exactly where its status allows it, and one that is refused leaves the engine as it was. -/

namespace StepWorld

namespace SimulationStatus

theorem head?_destutter' (status : SimulationStatus) (statuses : List SimulationStatus) :
    (statuses.destutter' (· ≠ ·) status).head? = some status := by
  induction statuses with
  | nil => rfl
  | cons next rest ih =>
    by_cases h : status ≠ next
    · rw [List.destutter'_cons_pos _ h]
      rfl
    · rw [List.destutter'_cons_neg _ h]
      exact ih

theorem isChain_destutter' {status : SimulationStatus} {statuses : List SimulationStatus}
    (h : (status :: statuses).IsChain Precedes) :
    (statuses.destutter' (· ≠ ·) status).IsChain Follows := by
  induction statuses generalizing status with
  | nil => exact List.isChain_singleton _
  | cons next rest ih =>
    rw [List.isChain_cons_cons] at h
    by_cases hne : status ≠ next
    · rw [List.destutter'_cons_pos _ hne]
      refine List.isChain_cons.mpr ⟨fun first hfirst => ?_, ih h.2⟩
      rw [head?_destutter'] at hfirst
      obtain rfl := Option.some.inj hfirst
      rcases h.1 with hf | ⟨rfl, rfl⟩
      · exact hf
      · exact absurd rfl hne
    · rw [List.destutter'_cons_neg _ hne]
      exact ih (not_not.mp hne ▸ h.2)

end SimulationStatus

theorem IsLife.changes {statuses : List SimulationStatus} (h : IsLife statuses) :
    (statuses.destutter (· ≠ ·)).IsChain SimulationStatus.Follows := by
  cases statuses with
  | nil => exact List.isChain_nil
  | cons first rest => exact SimulationStatus.isChain_destutter' h.2

theorem IsLife.ended {before after : List SimulationStatus} {last : SimulationStatus}
    (h : IsLife (before ++ after)) (hl : before.getLast? = some last) (ht : last.terminal = true) :
    ∀ status ∈ after, status = last := by
  obtain ⟨-, hchain, hlink⟩ := List.isChain_append.mp h.2
  have hfirst : ∀ status ∈ after.head?, status = last := fun status hs =>
    (hlink last hl status hs).terminal ht
  clear hlink h hl
  induction after with
  | nil => simp
  | cons first rest ih =>
    obtain rfl := hfirst first rfl
    rw [List.isChain_cons] at hchain
    intro status hs
    rcases List.mem_cons.mp hs with rfl | hs
    · rfl
    · exact ih hchain.2 (fun next hn => (hchain.1 next hn).terminal ht) status hs

namespace Engine

variable {e f : Engine} {id : String}

/-- No simulation has been created yet. Specifications may be there, and the archive may hold
anything. -/
structure Unused (e : Engine) : Prop where
  simulations : e.simulations = []
  detached : e.detached = []
  queue : e.schedule.queue = []
  sleepers : e.schedule.sleepers = []
  statuses : e.statuses = []
  refusals : e.refusals = []
  failures : e.failures = []

structure Regular (e : Engine) : Prop where
  orderly : e.Orderly
  calm : e.Calm
  lawful : e.refusals = [] → e.Lawful
  faultless : e.refusals = [] → ∀ k, e.failures.get? k = none

theorem Unused.regular (h : e.Unused) : e.Regular := by
  have hloops : e.schedule.loops = [] := by
    rw [Schedule.loops, h.queue, h.sleepers]
    rfl
  have hget (id : String) : e.simulations.get? id = none := by
    rw [h.simulations]
    rfl
  refine ⟨⟨?_, h.detached, ?_, ?_, ?_, ?_, ?_⟩, ?_, fun _ => ⟨?_, ?_⟩, fun _ k => ?_⟩
  · simp [hget]
  · simp [hloops]
  · simp [hloops]
  · simp [h.queue]
  · simp [h.statuses]
  · simp [hget]
  · simp [Calm, hloops]
  · simp [statusesOf, h.statuses, IsLife]
  · simp [hget]
  · rw [h.failures]
    rfl

theorem Regular.perform (h : e.Regular) (c : LifecycleCall) : (e.perform c).2.Regular := by
  have hcourse := h.orderly.course c
  have hextends := h.orderly.extends hcourse
  refine ⟨h.orderly.follow hcourse, h.orderly.calm hcourse h.calm, fun hr => ?_, fun hr k => ?_⟩
  · exact h.orderly.lawful hcourse hr (h.lawful (hextends.none hr))
  · exact hextends.failures hr k (h.faultless (hextends.none hr) k)

theorem Regular.performAll (h : e.Regular) (calls : List LifecycleCall) :
    (e.performAll calls).Regular := by
  induction calls generalizing e with
  | nil => exact h
  | cons c rest ih => exact ih (h.perform c)

theorem Regular.extends (h : e.Regular) (calls : List LifecycleCall) :
    Extends e (e.performAll calls) := by
  induction calls generalizing e with
  | nil => exact .refl e
  | cons c rest ih =>
    exact (h.orderly.extends (h.orderly.course c)).trans (ih (h.perform c))

def statusOf? (e : Engine) (id : String) : Option SimulationStatus :=
  (e.simulations.get? id).map (·.status)

def Allows (e : Engine) : LifecycleCall → Prop
  | .create specification _ => (e.specifications.get? specification).isSome
  | .start id => e.statusOf? id = some .created
  | .pause id => e.statusOf? id = some .running
  | .resume id => e.statusOf? id = some .paused
  | .stop id =>
    e.statusOf? id = some .created ∨ e.statusOf? id = some .running ∨
      e.statusOf? id = some .paused
  | .wait id => (e.statusOf? id).isSome
  | .delete _ => True

def Judged {α : Type} (e : Engine) (allowed : Prop) (task : Task α) : Prop :=
  allowed ∧ (∃ a, (e.call task).1 = .ok a) ∨ ¬allowed ∧ ∃ error, e.call task = (.error error, e)

theorem Judged.congr {α : Type} {task : Task α} {p q : Prop} (h : e.Judged p task) (hpq : p ↔ q) :
    e.Judged q task := by
  unfold Judged
  rwa [← hpq]

theorem judged_lookupFor {action : LifecycleAction} {next : Simulation → Task Unit}
    (h : ∀ s, e.simulations.get? id = some s → action.allows s.status = true →
      (e.call (next s)).1 = .ok ()) :
    e.Judged (∃ s, e.simulations.get? id = some s ∧ action.allows s.status = true)
      (lookupFor action id >>= next) := by
  by_cases hs : ∃ s, e.simulations.get? id = some s ∧ action.allows s.status = true
  · obtain ⟨s, hget, ha⟩ := hs
    refine .inl ⟨⟨s, hget, ha⟩, (), ?_⟩
    rw [call_of_get? hget ha]
    exact h s hget ha
  · refine .inr ⟨hs, @call_refused e id action Unit next fun s hget => ?_⟩
    rw [Bool.eq_false_iff]
    exact fun ha => hs ⟨s, hget, ha⟩

theorem Faithful.ok {task : Task Unit} (h : Faithful task) (hr : (e.call task).2.refusals = []) :
    (e.call task).1 = .ok () := by
  have hf := h e
  generalize e.call task = result at hf hr ⊢
  obtain ⟨result, f⟩ := result
  cases result with
  | ok u => rfl
  | error error => exact absurd hr (hf error rfl)

theorem statusOf?_iff {status : SimulationStatus} :
    e.statusOf? id = some status ↔ ∃ s, e.simulations.get? id = some s ∧ s.status = status := by
  simp [statusOf?]

variable {c : LifecycleCall}

theorem judged_start (hr : (e.call (start id)).2.refusals = []) :
    e.Judged (e.statusOf? id = some .created) (start id) := by
  unfold start at hr ⊢
  refine Judged.congr (judged_lookupFor fun s hs ha => ?_) ?_
  · rw [call_of_get? hs ha] at hr
    refine Faithful.ok ?_ hr
    exact .of_bind (.of_modify _) fun _ => .of_bind (.setStatus _ _) fun _ => .of_modify _
  · rw [statusOf?_iff]
    simp [LifecycleAction.allows]

theorem judged_pause (hr : (e.call (pause id)).2.refusals = []) :
    e.Judged (e.statusOf? id = some .running) (pause id) := by
  unfold pause at hr ⊢
  refine Judged.congr (judged_lookupFor fun s hs ha => ?_) ?_
  · rw [call_of_get? hs ha] at hr
    refine Faithful.ok ?_ hr
    exact .of_bind (.of_modify _) fun _ => .of_bind (.setStatus _ _) fun _ => .of_modify _
  · rw [statusOf?_iff]
    simp [LifecycleAction.allows]

theorem Orderly.await_cases (h : e.Orderly) (id : String) (hf : ∀ k, e.failures.get? k = none) :
    e.call (await id) = (.ok (), e.awaitLoop id) ∨
      ∃ error, e.call (await id) = (.error error, e.awaitLoop id) ∧
        (e.awaitLoop id).refusals ≠ [] := by
  have hextends := h.extends_passes (passes_awaitLoop e id)
  rw [call_await]
  cases hget : (e.awaitLoop id).failures.get? id with
  | none => exact .inl rfl
  | some error =>
    refine .inr ⟨error, rfl, fun hr => ?_⟩
    rw [hextends.failures hr id (hf id)] at hget
    cases hget

theorem judged_resume (h : e.Orderly) (hc : e.Calm) (hf : ∀ k, e.failures.get? k = none)
    (hr : (e.call (resume id)).2.refusals = []) :
    e.Judged (e.statusOf? id = some .paused) (resume id) := by
  unfold resume at hr ⊢
  refine Judged.congr (judged_lookupFor fun s hs ha => ?_) ?_
  · have hpaused : s.status = .paused := by simpa [LifecycleAction.allows] using ha
    have hstay := h.paused_passes (passes_awaitLoop e id) hs hpaused fun l hl _ => hc l hl
    rw [call_of_get? hs ha, call_bind] at hr
    rw [call_bind]
    rcases h.await_cases id hf with hawait | ⟨error, hawait, hrefused⟩
    · rw [hawait] at hr ⊢
      dsimp only at hr ⊢
      rw [call_of_get? hstay ha] at hr ⊢
      exact Faithful.ok (.of_bind (.setStatus _ _) fun _ => .of_modify _) hr
    · rw [hawait] at hr
      exact absurd hr hrefused
  · rw [statusOf?_iff]
    simp [LifecycleAction.allows]

theorem judged_stop (h : e.Orderly) (hf : ∀ k, e.failures.get? k = none)
    (hr : (e.call (stop id)).2.refusals = []) :
    e.Judged (e.Allows (.stop id)) (stop id) := by
  unfold stop at hr ⊢
  refine Judged.congr (judged_lookupFor fun s hs ha => ?_) ?_
  · have hmark := h.handle (h.handled_markStopping hs)
    rw [call_of_get? hs ha, call_bind, call_modify] at hr
    rw [call_bind, call_modify]
    dsimp only at hr ⊢
    rw [call_bind] at hr ⊢
    rcases hmark.await_cases id hf with hawait | ⟨error, hawait, hrefused⟩
    · rw [hawait] at hr ⊢
      refine Faithful.ok (.of_bind .of_get fun g => ?_) hr
      split
      · exact .complete _
      · exact .of_pure _
    · rw [hawait] at hr
      exact absurd hr hrefused
  · simp only [Allows, statusOf?_iff, ← exists_or, ← and_or_left]
    refine exists_congr fun s => and_congr_right fun _ => ?_
    cases s.status <;> simp [LifecycleAction.allows, SimulationStatus.terminal]

theorem judged_wait (h : e.Orderly) (hf : ∀ k, e.failures.get? k = none)
    (hr : (e.call (wait id)).2.refusals = []) :
    e.Judged (e.statusOf? id).isSome (wait id) := by
  unfold wait Judged at *
  rw [call_bind, call_lookup] at hr ⊢
  cases hs : e.simulations.get? id with
  | none =>
    rw [hs] at hr
    exact .inr ⟨by simp [statusOf?, hs], _, rfl⟩
  | some s =>
    rw [hs] at hr
    dsimp only at hr ⊢
    rcases h.await_cases id hf with hawait | ⟨error, hawait, hrefused⟩
    · exact .inl ⟨by simp [statusOf?, hs], (), by rw [hawait]⟩
    · rw [hawait] at hr
      exact absurd hr hrefused

theorem judged_create (specification : String) (o : SimulationOptions)
    (hr : (e.call (createSimulation specification o)).2.refusals = []) :
    e.Judged (e.specifications.get? specification).isSome (createSimulation specification o) := by
  unfold createSimulation Judged at *
  rw [call_bind, call_get] at hr ⊢
  dsimp only at hr ⊢
  cases hs : e.specifications.get? specification with
  | none => exact .inr ⟨by simp, _, rfl⟩
  | some spec =>
    rw [hs] at hr
    dsimp only at hr ⊢
    rw [call_bind, call_modifyGet] at hr ⊢
    dsimp only at hr ⊢
    generalize (e.addSimulation specification spec.program o).1 = s at hr ⊢
    generalize (e.addSimulation specification spec.program o).2 = g at hr ⊢
    rw [call_bind] at hr ⊢
    have hstore := Faithful.of_store (Archive.saveRecord s) g
    generalize g.call (store (Archive.saveRecord s)) = result at hr hstore ⊢
    obtain ⟨result, f⟩ := result
    cases result with
    | ok u => exact .inl ⟨rfl, s.id, rfl⟩
    | error error => exact absurd hr (hstore error rfl)

theorem erase_returns (hr : (e.call (erase id)).2.refusals = []) :
    (e.call (erase id)).1 = .ok true := by
  rcases e.erase_cases id with ⟨archive, -, hcall⟩ | ⟨error, archive, hcall⟩
  · rw [hcall]
  · rw [hcall] at hr
    simp at hr

theorem Orderly.delete_returns (h : e.Orderly) (hf : ∀ k, e.failures.get? k = none)
    {s : Simulation} (hs : e.simulations.get? id = some s)
    (hr : (e.call (deleteSimulation id)).2.refusals = []) :
    (e.call (deleteSimulation id)).1 = .ok true := by
  rw [call_delete hs] at hr ⊢
  cases hl : s.status.terminal with
  | true =>
    rw [hl] at hr
    exact erase_returns hr
  | false =>
    rw [hl] at hr
    simp only [Bool.false_eq_true, if_false] at hr ⊢
    have hallowed : e.Allows (.stop id) := by
      simp only [Allows, statusOf?, hs]
      cases hstatus : s.status <;> simp [hstatus, SimulationStatus.terminal] at hl ⊢
    rw [call_bind] at hr ⊢
    have hstop := @judged_stop e id h hf
    unfold Judged at hstop
    generalize e.call (stop id) = result at hr hstop ⊢
    obtain ⟨result, f⟩ := result
    cases result with
    | ok u => exact erase_returns hr
    | error error =>
      rcases hstop hr with ⟨-, a, hok⟩ | ⟨hn, -⟩
      · cases hok
      · exact absurd hallowed hn

theorem judged_delete (h : e.Orderly) (hf : ∀ k, e.failures.get? k = none)
    (hr : (e.call (deleteSimulation id)).2.refusals = []) :
    e.Judged True (deleteSimulation id) := by
  refine .inl ⟨trivial, ?_⟩
  cases hs : e.simulations.get? id with
  | none => exact ⟨false, by rw [call_delete_none hs]⟩
  | some s => exact ⟨true, h.delete_returns hf hs hr⟩

theorem Judged.map {α : Type} {task : Task α} {p : Prop} (h : e.Judged p task) :
    e.Judged p (do let _ ← task; pure ()) := by
  unfold Judged at *
  rw [call_bind]
  rcases h with ⟨hp, a, hok⟩ | ⟨hp, error, herror⟩
  · generalize e.call task = result at hok ⊢
    obtain ⟨result, f⟩ := result
    obtain rfl : result = .ok a := hok
    exact .inl ⟨hp, (), rfl⟩
  · rw [herror]
    exact .inr ⟨hp, error, rfl⟩

theorem call_discard {α : Type} (task : Task α) :
    (e.call (do let _ ← task; pure ())).2 = (e.call task).2 := by
  rw [call_bind]
  generalize e.call task = result
  obtain ⟨result, f⟩ := result
  cases result <;> rfl

theorem Regular.judged (h : e.Regular) (c : LifecycleCall) (hr : (e.perform c).2.refusals = []) :
    e.Judged (e.Allows c) c.task := by
  have hf := h.faultless ((h.orderly.extends (h.orderly.course c)).none hr)
  cases c with
  | create specification options => exact (judged_create _ _ (call_discard (e := e) _ ▸ hr)).map
  | start id => exact judged_start hr
  | pause id => exact judged_pause hr
  | resume id => exact judged_resume h.orderly h.calm hf hr
  | stop id => exact judged_stop h.orderly hf hr
  | wait id => exact judged_wait h.orderly hf hr
  | delete id => exact (judged_delete h.orderly hf (call_discard (e := e) _ ▸ hr)).map

/-- Lifecycle safety. After any calls on an engine that was unused, whose archive refused
nothing, the changes of every status were moves of the lifecycle and led to the present status,
an ended simulation keeps its status for good, and every further call is done exactly where it is
allowed, or changes nothing. -/
theorem lifecycle_safety (h : e.Unused) (calls : List LifecycleCall)
    (hr : (e.performAll calls).refusals = []) :
    (∀ id, (∀ first ∈ ((e.performAll calls).statusesOf id).head?, first = .created) ∧
      (((e.performAll calls).statusesOf id).destutter (· ≠ ·)).IsChain SimulationStatus.Follows ∧
      ∀ s, (e.performAll calls).simulations.get? id = some s →
        ((e.performAll calls).statusesOf id).getLast? = some s.status) ∧
    (∀ id s more t, (e.performAll calls).simulations.get? id = some s →
      s.status.terminal = true → (e.performAll (calls ++ more)).refusals = [] →
      (e.performAll (calls ++ more)).simulations.get? id = some t → t.status = s.status) ∧
    ∀ c, ((e.performAll calls).perform c).2.refusals = [] →
      (((e.performAll calls).perform c).1 = .ok () ↔ (e.performAll calls).Allows c) ∧
      ∀ error, ((e.performAll calls).perform c).1 = .error error →
        ((e.performAll calls).perform c).2 = e.performAll calls := by
  have hreg := h.regular.performAll calls
  have hlaw := hreg.lawful hr
  refine ⟨fun id => ⟨(hlaw.life id).1, (hlaw.life id).changes, hlaw.present id⟩,
    fun id s more t hs hl hr' ht => ?_, fun c hr' => ?_⟩
  · have happend : e.performAll (calls ++ more) = (e.performAll calls).performAll more :=
      List.foldl_append
    rw [happend] at hr' ht
    have hlaw' := (hreg.performAll more).lawful hr'
    obtain ⟨later, hlater⟩ := (hreg.extends more).statuses
    have hlife := hlaw'.life id
    have hlast := hlaw'.present id t ht
    have hsplit : ((e.performAll calls).performAll more).statusesOf id =
        (e.performAll calls).statusesOf id ++ (later.filter (·.1 == id)).map (·.2) := by
      simp [statusesOf, ← hlater]
    rw [hsplit] at hlife hlast
    have hended := hlife.ended (hlaw.present id s hs) hl
    rw [List.getLast?_append] at hlast
    cases hl' : ((later.filter (·.1 == id)).map (·.2)).getLast? with
    | none =>
      rw [hl', Option.none_or, hlaw.present id s hs] at hlast
      exact (Option.some.inj hlast).symm
    | some last =>
      rw [hl', Option.some_or] at hlast
      obtain rfl := Option.some.inj hlast
      exact hended _ (List.mem_of_getLast? hl')
  · rcases hreg.judged c hr' with ⟨ha, a, hok⟩ | ⟨hn, error, herror⟩
    · refine ⟨⟨fun _ => ha, fun _ => hok⟩, fun error herror => ?_⟩
      have hok' : ((e.performAll calls).perform c).1 = .ok a := hok
      rw [hok'] at herror
      cases herror
    · have herror' : (e.performAll calls).perform c = (.error error, e.performAll calls) := herror
      rw [herror']
      exact ⟨⟨fun hok => (by cases hok), fun ha => absurd ha hn⟩, fun _ _ => rfl⟩

/-- An engine with a specification that declares nothing. Its listener pauses after every
step. -/
def pausing : Engine :=
  { create .default [] (.cyclic [0] 0) (.memory .empty) fun _ _ => [.pause] with
    specifications := [("spec", .create "" ⟨[], [], []⟩ (some "Nothing") none 0)] }

def fiveSteps : SimulationOptions := ⟨none, none, some 5, none, none⟩

theorem unused_pausing : pausing.Unused := ⟨rfl, rfl, rfl, rfl, rfl, rfl, rfl⟩

/-- A simulation is started, paused by the listener, resumed, paused again and stopped. -/
def pausedTwice : List LifecycleCall :=
  [.create "spec" fiveSteps, .start "sim_000000000001", .wait "sim_000000000001",
    .resume "sim_000000000001", .wait "sim_000000000001", .stop "sim_000000000001"]

theorem lifecycle_safety_pausedTwice :
    (pausing.performAll pausedTwice).statusesOf "sim_000000000001" =
        [.created, .running, .paused, .running, .paused, .completed] ∧
      (((pausing.performAll pausedTwice).statusesOf "sim_000000000001").destutter
        (· ≠ ·)).IsChain SimulationStatus.Follows := by
  have hsafe := lifecycle_safety unused_pausing pausedTwice (by decide +kernel)
  exact ⟨by decide +kernel, (hsafe.1 "sim_000000000001").2.1⟩

end Engine

end StepWorld
