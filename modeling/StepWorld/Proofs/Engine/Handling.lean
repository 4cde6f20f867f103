import StepWorld.Proofs.Engine.Waiting

/-! What a caller does to a simulation between two waits. It is created, given a status and a
loop, or dropped, and all other simulations and loops stay. -/

namespace StepWorld

namespace Engine

variable {e f g : Engine} {k : String} {s t : Simulation}

/-- What is done to a registered simulation, its loops and its status. It takes no step. -/
structure Handled (k : String) (e f : Engine) (s t : Simulation) : Prop where
  touches : Touches k e f
  before : e.simulations.get? k = some s
  after : f.simulations.get? k = some t
  step : t.currentStep = s.currentStep
  begun : f.begun = e.begun
  summaries : f.summaries = e.summaries
  status : f.statuses = e.statuses ∧ t.status = s.status ∨
    f.statuses = e.statuses ++ [(k, t.status)] ∧ s.status.Follows t.status
  others : ∀ l ∈ f.schedule.loops, l.simulation ≠ k → ∃ m ∈ e.schedule.loops, m.core = l.core
  own : ∀ l ∈ f.schedule.loops, l.simulation = k → l.Drives t.status
  single : (f.schedule.loops.map (·.simulation)).Nodup
  brief : ∀ l ∈ f.schedule.queue, l.phase.delay ≤ 3

def Calm (e : Engine) : Prop := ∀ l ∈ e.schedule.loops, l.stopping = false

/-- One thing that a caller does for a simulation. -/
inductive Does (k : String) (e : Engine) : Engine → Prop
  | aside {f : Engine} (hs : Steady e f) : Does k e f
  | handle {f : Engine} {s t : Simulation} (h : Handled k e f s t) (hc : e.Calm → f.Calm) :
    Does k e f
  | add (specification : String) (program : Program) (o : SimulationOptions)
      (hk : (e.addSimulation specification program o).1.id = k) :
      Does k e (e.addSimulation specification program o).2
  | forget (hp : e.pending k = false) : Does k e (e.forget k)

abbrev Doings (k : String) := Relation.ReflTransGen (Does k)

theorem Orderly.steady (h : e.Orderly) (hs : Steady e f) : f.Orderly where
  filed := hs.simulations ▸ h.filed
  attached := hs.detached ▸ h.attached
  single := hs.schedule ▸ h.single
  driven := by
    rw [hs.schedule, hs.simulations]
    exact h.driven
  brief := hs.schedule ▸ h.brief
  known p hp := by
    rw [hs.statuses] at hp
    obtain ⟨n, hn, hp⟩ := h.known p hp
    exact ⟨n, Nat.le_trans hn hs.issued, hp⟩
  noted := by
    rw [hs.simulations, hs.statuses]
    exact h.noted

theorem Orderly.handle (h : e.Orderly) (hf : Handled k e f s t) : f.Orderly := by
  refine h.touched hf.touches hf.before hf.single hf.others (fun l hl hid => ?_) hf.brief
  exact ⟨t, hf.after, hf.own l hl hid⟩

theorem Orderly.fresh (h : e.Orderly) (specification : String) (program : Program)
    (o : SimulationOptions) :
    ∀ p ∈ e.statuses, p.1 ≠ (e.addSimulation specification program o).1.id := by
  intro p hp hid
  obtain ⟨n, hn, hname⟩ := h.known p hp
  have hnew : (e.addSimulation specification program o).1.id =
      numberedId "sim" (e.arena.ambient.issued + 1) := rfl
  have := numberedId_injective (hname.symm.trans (hid.trans hnew))
  omega

theorem Orderly.fresh_get? (h : e.Orderly) (specification : String) (program : Program)
    (o : SimulationOptions) :
    e.simulations.get? (e.addSimulation specification program o).1.id = none := by
  cases hget : e.simulations.get? (e.addSimulation specification program o).1.id with
  | none => rfl
  | some s =>
    obtain ⟨status, hst⟩ := h.noted _ s hget
    exact absurd rfl (h.fresh specification program o _ hst)

theorem override_along {R : Arena → Arena → Prop} [Std.Refl R] [Trans R R R] {id : String}
    (hvar : ∀ a name value, R a (a.setVariable id name value))
    (hproperty : ∀ a type properties, R a (a.overrideFirst id type properties)) (a : Arena)
    (initial : InitialState) : R a (a.override id initial) := by
  have hfold {β : Type} {f : Arena → β → Arena} (hf : ∀ a x, R a (f a x)) (l : List β) (a : Arena) :
      R a (l.foldl f a) := by
    induction l generalizing a with
    | nil => exact Std.Refl.refl a
    | cons first remaining ih => exact Trans.trans (hf a first) (ih _)
  exact Trans.trans (hfold (fun a x => hvar a x.1 x.2) initial.vars a)
    (hfold (fun a x => hproperty a x.1 x.2) initial.entities _)

theorem advances_override (a : Arena) (id : String) (initial : InitialState) :
    a.Advances (a.override id initial) := by
  refine override_along (fun a name value => a.advances_update id _) (fun a type properties => ?_)
    a initial
  unfold Arena.overrideFirst
  split
  · exact a.advances_update id _
  · exact ⟨a.ambient.advances_print _ _, fun _ => rfl⟩

theorem issued_addSimulation (e : Engine) (specification : String) (program : Program)
    (o : SimulationOptions) : e.arena.ambient.issued + 1 ≤
      (e.addSimulation specification program o).2.arena.ambient.issued := by
  unfold addSimulation
  dsimp only
  cases o.initialState with
  | none => exact Nat.le_refl _
  | some initial =>
    let issued := e.tick.2.issue "sim"
    exact (advances_override (issued.2.arena.create issued.1 program.entities) issued.1
      initial).ambient.issued

theorem ambient_addSimulation (e : Engine) (specification : String) (program : Program)
    (o : SimulationOptions) : e.arena.ambient.Advances
      (e.addSimulation specification program o).2.arena.ambient := by
  have hissue : e.arena.ambient.Advances (e.tick.2.issue "sim").2.arena.ambient :=
    Trans.trans e.arena.ambient.advances_tick (e.tick.2.arena.ambient.advances_issue "sim")
  have hcreate (a : Arena) (id : String) (entities : List EntityDecl) :
      a.ambient.Advances (a.create id entities).ambient := a.ambient.advances_tick
  unfold addSimulation
  dsimp only
  cases o.initialState with
  | none => exact Trans.trans hissue (hcreate _ _ _)
  | some initial =>
    exact Trans.trans (Trans.trans hissue (hcreate _ _ _)) (advances_override _ _ initial).ambient

theorem Orderly.add (h : e.Orderly) (specification : String) (program : Program)
    (o : SimulationOptions) : (e.addSimulation specification program o).2.Orderly := by
  have hfresh := h.fresh_get? specification program o
  have hget (k : String) : (e.addSimulation specification program o).2.simulations.get? k =
      if k = (e.addSimulation specification program o).1.id then
        some (e.addSimulation specification program o).1
      else e.simulations.get? k := Table.get?_put _ _ _ _
  have hstatuses : (e.addSimulation specification program o).2.statuses =
      e.statuses ++ [((e.addSimulation specification program o).1.id, .created)] := rfl
  have hschedule : (e.addSimulation specification program o).2.schedule = e.schedule := rfl
  have hissued := e.issued_addSimulation specification program o
  refine ⟨fun k s hs => ?_, h.attached, h.single, fun l hl => ?_, h.brief, fun p hp => ?_,
    fun k s hs => ?_⟩
  · rw [hget] at hs
    split at hs
    · next hk =>
      cases hs
      exact hk.symm
    · exact h.filed k s hs
  · obtain ⟨s, hs, hd⟩ := h.driven l (hschedule ▸ hl)
    refine ⟨s, ?_, hd⟩
    rw [hget, if_neg fun hk => ?_]
    · exact hs
    · rw [hk, hfresh] at hs
      cases hs
  · rw [hstatuses, List.mem_append, List.mem_singleton] at hp
    rcases hp with hp | rfl
    · obtain ⟨n, hn, hp⟩ := h.known p hp
      exact ⟨n, Nat.le_trans hn (Nat.le_trans (Nat.le_succ _) hissued), hp⟩
    · exact ⟨_, hissued, rfl⟩
  · rw [hget] at hs
    rw [hstatuses]
    split at hs
    · next hk => exact ⟨.created, List.mem_append_right _ (by simp [hk])⟩
    · obtain ⟨status, hst⟩ := h.noted k s hs
      exact ⟨status, List.mem_append_left _ hst⟩

theorem Orderly.forget (h : e.Orderly) (hp : e.pending k = false) : (e.forget k).Orderly := by
  have hget (j : String) : (e.forget k).simulations.get? j =
      if j = k then none else e.simulations.get? j := Table.get?_remove _ _ _
  have hkept {j : String} {s : Simulation} (hs : (e.forget k).simulations.get? j = some s) :
      j ≠ k ∧ e.simulations.get? j = some s := by
    rw [hget] at hs
    split at hs
    · cases hs
    · next hj => exact ⟨hj, hs⟩
  refine ⟨fun j s hs => h.filed j s (hkept hs).2, ?_, h.single, fun l hl => ?_, h.brief, h.known,
    fun j s hs => h.noted j s (hkept hs).2⟩
  · simp only [Engine.forget, hp, Bool.false_eq_true, if_false]
    split <;> exact h.attached
  · obtain ⟨s, hs, hd⟩ := h.driven l hl
    refine ⟨s, ?_, hd⟩
    rw [hget, if_neg fun hk => ?_]
    · exact hs
    · have hpending : e.pending k = true := pending_iff.mpr ⟨l, hl, hk⟩
      rw [hp] at hpending
      cases hpending

theorem Orderly.does (h : e.Orderly) (hf : Does k e f) : f.Orderly := by
  cases hf with
  | aside hs => exact h.steady hs
  | handle hh hc => exact h.handle hh
  | add specification program o => exact h.add specification program o
  | forget hp => exact h.forget hp

theorem Orderly.doings (h : e.Orderly) (hf : Doings k e f) : f.Orderly := by
  induction hf with
  | refl => exact h
  | tail _ hstep ih => exact ih.does hstep

theorem Does.histories (hf : Does k e f) : f.begun = e.begun ∧ f.summaries = e.summaries := by
  cases hf with
  | aside hs => exact ⟨hs.begun, hs.summaries⟩
  | handle hh hc => exact ⟨hh.begun, hh.summaries⟩
  | add => exact ⟨rfl, rfl⟩
  | forget => exact ⟨rfl, rfl⟩

theorem Doings.histories (hf : Doings k e f) : f.begun = e.begun ∧ f.summaries = e.summaries := by
  induction hf with
  | refl => exact ⟨rfl, rfl⟩
  | tail _ hstep ih =>
    obtain ⟨hb, hs⟩ := Does.histories hstep
    exact ⟨hb.trans ih.1, hs.trans ih.2⟩

theorem Does.extends (hf : Does k e f) : Extends e f := by
  cases hf with
  | aside hs => exact hs.extends
  | handle hh hc => exact hh.touches.extends
  | add =>
    exact ⟨rfl, List.prefix_append _ _, List.prefix_refl _, fun _ h => .inl h,
      List.prefix_refl _, fun _ _ h => h⟩
  | forget =>
    have hremove {α : Type} (t : Table α) (j : String) (hj : t.get? j = none) :
        (t.remove k).get? j = none := by
      rw [Table.get?_remove]
      split
      · rfl
      · exact hj
    exact ⟨rfl, List.prefix_refl _, List.prefix_refl _, fun j hj => .inl (hremove _ j hj),
      List.prefix_refl _, fun _ => hremove _⟩

theorem Doings.extends (hf : Doings k e f) : Extends e f := by
  induction hf with
  | refl => exact .refl e
  | tail _ hstep ih => exact ih.trans (Does.extends hstep)

theorem Lawful.handle (h : e.Lawful) (hf : Handled k e f s t) : f.Lawful := by
  have hothers (j : String) (hj : j ≠ k) (u : Simulation) (hu : f.simulations.get? j = some u) :
      e.simulations.get? j = some u := by
    rw [← hf.touches.others j hj]
    exact hu
  rcases hf.status with ⟨hs, ht⟩ | ⟨hs, ht⟩
  · refine h.congr hs fun j u hu => ?_
    by_cases hj : j = k
    · subst hj
      obtain rfl : u = t := Option.some.inj (hu.symm.trans hf.after)
      exact ⟨s, hf.before, ht⟩
    · exact ⟨u, hothers j hj u hu, rfl⟩
  · have henter := h.enter hf.before (.inl ht)
    refine henter.congr hs fun j u hu => ?_
    by_cases hj : j = k
    · subst hj
      obtain rfl : u = t := Option.some.inj (hu.symm.trans hf.after)
      exact ⟨{ s with status := u.status }, by simp [Engine.enter, Engine.alter, Table.get?_modify, hf.before], rfl⟩
    · refine ⟨u, ?_, rfl⟩
      simpa [Engine.enter, Engine.alter, Table.get?_modify, hj] using hothers j hj u hu

theorem Lawful.add (h : e.Lawful) (ho : e.Orderly) (specification : String) (program : Program)
    (o : SimulationOptions) : (e.addSimulation specification program o).2.Lawful := by
  have hfresh := ho.fresh specification program o
  have hget (j : String) : (e.addSimulation specification program o).2.simulations.get? j =
      if j = (e.addSimulation specification program o).1.id then
        some (e.addSimulation specification program o).1
      else e.simulations.get? j := Table.get?_put _ _ _ _
  have hstatuses : (e.addSimulation specification program o).2.statuses =
      e.statuses ++ [((e.addSimulation specification program o).1.id, .created)] := rfl
  have hown : (e.addSimulation specification program o).2.statusesOf
      (e.addSimulation specification program o).1.id = [.created] := by
    have hnone : e.statuses.filter
        (·.1 == (e.addSimulation specification program o).1.id) = [] := by
      rw [List.filter_eq_nil_iff]
      intro p hp
      simpa using hfresh p hp
    simp [statusesOf, hstatuses, hnone]
  have hother (j : String) (hj : j ≠ (e.addSimulation specification program o).1.id) :
      (e.addSimulation specification program o).2.statusesOf j = e.statusesOf j := by
    simp [statusesOf, hstatuses, Ne.symm hj]
  constructor
  · intro j
    by_cases hj : j = (e.addSimulation specification program o).1.id
    · rw [hj, hown]
      exact ⟨by simp, List.isChain_singleton _⟩
    · rw [hother j hj]
      exact h.life j
  · intro j u hu
    rw [hget] at hu
    split at hu
    · next hj =>
      cases hu
      rw [hj, hown]
      rfl
    · next hj =>
      rw [hother j hj]
      exact h.present j u hu

theorem Lawful.does (h : e.Lawful) (ho : e.Orderly) (hf : Does k e f) : f.Lawful := by
  cases hf with
  | aside hs => exact h.steady hs
  | handle hh hc => exact h.handle hh
  | add specification program o => exact h.add ho specification program o
  | forget hp =>
    refine h.congr rfl fun j u hu => ⟨u, ?_, rfl⟩
    have hremove : (e.forget k).simulations.get? j =
        if j = k then none else e.simulations.get? j := Table.get?_remove _ _ _
    rw [hremove] at hu
    split at hu
    · cases hu
    · exact hu

theorem Lawful.doings (h : e.Lawful) (ho : e.Orderly) (hf : Doings k e f) : f.Lawful := by
  induction hf with
  | refl => exact h
  | tail hpast hstep ih => exact ih.does (ho.doings hpast) hstep

theorem Calm.does (h : e.Calm) (hf : Does k e f) : f.Calm := by
  cases hf with
  | aside hs =>
    unfold Calm
    rw [hs.schedule]
    exact h
  | handle hh hc => exact hc h
  | add => exact h
  | forget => exact h

theorem Calm.doings (h : e.Calm) (hf : Doings k e f) : f.Calm := by
  induction hf with
  | refl => exact h
  | tail _ hstep ih => exact ih.does hstep

end Engine

end StepWorld
