import Mathlib.Data.List.Chain
import StepWorld.Proofs.Engine.Steady

/-! The statuses of every simulation in the order in which they were given. In a lawful engine
they begin with the creation, follow the lifecycle and end with the present one. -/

namespace StepWorld

namespace SimulationStatus

/-- The moves of the lifecycle. -/
inductive Follows : SimulationStatus → SimulationStatus → Prop
  | start : Follows created running
  | dismiss : Follows created completed
  | pause : Follows running paused
  | finish : Follows running completed
  | fail : Follows running error
  | resume : Follows paused running
  | stop : Follows paused completed

theorem Follows.not_terminal {a b : SimulationStatus} (h : Follows a b) : a.terminal = false := by
  cases h <;> rfl

def Precedes (a b : SimulationStatus) : Prop := Follows a b ∨ a = completed ∧ b = completed

theorem Precedes.terminal {a b : SimulationStatus} (h : a.Precedes b) (ha : a.terminal = true) :
    b = a := by
  rcases h with h | ⟨rfl, rfl⟩
  · rw [h.not_terminal] at ha
    cases ha
  · rfl

theorem precedes_completed {a : SimulationStatus} (h : a ≠ error) : a.Precedes completed := by
  cases a with
  | created => exact .inl .dismiss
  | running => exact .inl .finish
  | paused => exact .inl .stop
  | completed => exact .inr ⟨rfl, rfl⟩
  | error => exact absurd rfl h

end SimulationStatus

open SimulationStatus

def IsLife (statuses : List SimulationStatus) : Prop :=
  (∀ first ∈ statuses.head?, first = .created) ∧ statuses.IsChain Precedes

theorem isLife_append {statuses : List SimulationStatus} {last next : SimulationStatus}
    (h : IsLife statuses) (hl : statuses.getLast? = some last) (hn : last.Precedes next) :
    IsLife (statuses ++ [next]) := by
  have hne : statuses ≠ [] := by
    rintro rfl
    cases hl
  constructor
  · rw [List.head?_append_of_ne_nil _ hne]
    exact h.1
  · refine List.isChain_append.mpr ⟨h.2, List.isChain_singleton _, ?_⟩
    intro a ha b hb
    rw [hl] at ha
    cases ha
    cases hb
    exact hn

namespace Engine

variable {e f : Engine} {id k : String} {s : Simulation} {status : SimulationStatus}

def statusesOf (e : Engine) (id : String) : List SimulationStatus :=
  (e.statuses.filter (·.1 == id)).map (·.2)

structure Lawful (e : Engine) : Prop where
  life : ∀ id, IsLife (e.statusesOf id)
  present : ∀ id s, e.simulations.get? id = some s → (e.statusesOf id).getLast? = some s.status

theorem Lawful.congr (h : e.Lawful) (hs : f.statuses = e.statuses)
    (hp : ∀ id t, f.simulations.get? id = some t →
      ∃ s, e.simulations.get? id = some s ∧ t.status = s.status) : f.Lawful where
  life id := by
    have := h.life id
    simpa only [statusesOf, hs] using this
  present id t ht := by
    obtain ⟨s, hget, hst⟩ := hp id t ht
    have := h.present id s hget
    simpa only [statusesOf, hs, hst] using this

theorem Lawful.steady (h : e.Lawful) (hs : Steady e f) : f.Lawful :=
  h.congr hs.statuses fun id t ht => ⟨t, by rw [← hs.simulations]; exact ht, rfl⟩

theorem Lawful.alter (h : e.Lawful) {g : Simulation → Simulation}
    (hg : ∀ s, (g s).status = s.status) : (e.alter id g).Lawful := by
  refine h.congr rfl fun k t ht => ?_
  simp only [Engine.alter, Table.get?_modify] at ht
  split at ht
  · obtain ⟨s, hs, rfl⟩ := Option.map_eq_some_iff.mp ht
    exact ⟨s, hs, hg s⟩
  · exact ⟨t, ht, rfl⟩

theorem Lawful.enter (h : e.Lawful) (hs : e.simulations.get? id = some s)
    (hn : s.status.Precedes status) : (e.enter id status).Lawful := by
  have hstatuses : (e.enter id status).statuses = e.statuses ++ [(id, status)] := rfl
  constructor
  · intro k
    have hk := h.life k
    by_cases hid : id = k
    · subst hid
      simpa [statusesOf, hstatuses] using isLife_append hk (h.present id s hs) hn
    · simpa [statusesOf, hstatuses, hid] using hk
  · intro k t ht
    simp only [Engine.enter, Engine.alter, Table.get?_modify] at ht
    split at ht
    · next hid =>
      subst hid
      rw [hs] at ht
      cases ht
      simp [statusesOf, hstatuses]
    · next hid =>
      have hk := h.present k t ht
      simpa [statusesOf, hstatuses, Ne.symm hid] using hk

theorem Lawful.unseen (h : e.Lawful) (hs : f.statuses = e.statuses)
    (hp : f.simulations = e.simulations) : f.Lawful :=
  h.congr hs fun _ t ht => ⟨t, by rw [← hp]; exact ht, rfl⟩

theorem Lawful.noteEnd (h : e.Lawful) (hs : e.simulations.get? id = some s)
    (hn : s.status.Precedes status) : (e.noteEnd id status).2.Lawful :=
  have htick : e.tick.2.Lawful := h.unseen rfl rfl
  (htick.enter hs hn).alter fun _ => rfl

theorem Lawful.noteFailure (h : e.Lawful) (hs : e.simulations.get? id = some s)
    (hn : s.status = .running) (message : String) : (e.noteFailure id message).Lawful := by
  have hnext : s.status.Precedes .error := by
    rw [hn]
    exact .inl .fail
  have halter := @Lawful.alter _ id (h.noteEnd hs hnext)
    (fun s => { s with error := some message }) fun _ => rfl
  exact halter.unseen rfl rfl

end Engine

end StepWorld
