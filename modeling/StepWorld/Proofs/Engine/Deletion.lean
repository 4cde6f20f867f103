import StepWorld.Proofs.Engine.Bystanders
import StepWorld.Proofs.Engine.Driven

/-! The deletion of a simulation. A simulation that is not over is stopped first. Then nothing of it
is left, and whoever takes no step meanwhile is as before. -/

namespace StepWorld

namespace Engine

variable {e f g : Engine} {id k : String} {s : Simulation}

/-! ### The way to a deletion -/

theorem isLive_complete (e : Engine) (id : String) :
    (e.call (complete id)).2.isLive id = false := by
  rw [isLive, (steady_complete e id).simulations]
  cases hs : e.simulations.get? id with
  | none => simp [noteEnd, enter, alter, Table.get?_modify, tick, hs]
  | some s =>
    rw [get?_noteEnd hs]
    rfl

structure Stopped (id : String) (e g : Engine) : Prop where
  passed : ∃ m, Passes (e.markStopping id) m ∧ (g = m ∨ g = (m.call (complete id)).2)
  idle : g.pending id = false
  ended : g.isLive id = false

theorem Orderly.stopped (h : e.Orderly) (hs : e.simulations.get? id = some s)
    (hlive : s.status.terminal = false) (hstop : e.call (stop id) = (.ok (), g)) :
    Stopped id e g := by
  obtain ⟨m, hpass, -, -, hidle, hend⟩ := h.stop_path hs hlive
  rw [hstop] at hidle hend
  rcases hend with ⟨error, -, hfail⟩ | ⟨hover, hdone⟩ | ⟨-, hcomplete⟩
  · cases hfail
  · cases hdone
    exact ⟨⟨_, hpass, .inl rfl⟩, hidle, hover⟩
  · have hg : g = (m.call (complete id)).2 := congrArg Prod.snd hcomplete
    exact ⟨⟨m, hpass, .inr hg⟩, hidle, hg ▸ isLive_complete m id⟩

theorem Driven.apart (h : e.Driven) (hk : (e.specifications.get? k).isSome) :
    e.simulations.get? k = none ∧ e.pending k = false := by
  obtain ⟨spec, hspec⟩ := Option.isSome_iff_exists.mp hk
  have hregistered := h.reachable.registered
  obtain ⟨-, m, -, hname⟩ := hregistered.sourced k spec hspec
  have hnone : e.simulations.get? k = none := by
    cases hs : e.simulations.get? k with
    | none => rfl
    | some s =>
      obtain ⟨-, n, -, hname'⟩ := hregistered.filed k s hs
      exact absurd (hname.symm.trans hname') (specificationId_ne m n)
  refine ⟨hnone, Bool.eq_false_iff.mpr fun hpending => ?_⟩
  obtain ⟨l, hl, hid⟩ := pending_iff.mp hpending
  obtain ⟨s, hs, -⟩ := h.ordered.1.driven l hl
  rw [hid, hnone] at hs
  cases hs

end Engine

end StepWorld
