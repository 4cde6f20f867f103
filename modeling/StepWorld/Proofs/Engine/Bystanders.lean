import StepWorld.Proofs.Engine.Completion
import StepWorld.Proofs.Engine.Undisturbed

/-! Simulations of which nothing is noted. While no step of a simulation is begun and no status is
given to it, it stays as it is with its world, its result and all that is stored of it, whatever is
done for others. -/

namespace StepWorld

namespace Engine

variable {e f g : Engine} {id k : String} {l : Loop} {rest : List Loop}

namespace Touches

end Touches

structure Bystands (id : String) (e f : Engine) : Prop where
  simulation : f.simulations.get? id = e.simulations.get? id
  result : f.results.get? id = e.results.get? id
  realm : f.arena.realms.get? id = e.arena.realms.get? id
  archive : IsSimulationId id → e.archive.Same id f.archive

namespace Bystands

theorem refl (e : Engine) : Bystands id e e := ⟨rfl, rfl, rfl, fun _ => .refl _⟩

theorem of_reschedule (e : Engine) (f : Schedule → Schedule) : Bystands id e (e.reschedule f) :=
  ⟨rfl, rfl, rfl, fun _ => .refl _⟩

theorem trans (h : Bystands id e f) (h' : Bystands id f g) : Bystands id e g where
  simulation := h'.simulation.trans h.simulation
  result := h'.result.trans h.result
  realm := h'.realm.trans h.realm
  archive hid := (h.archive hid).trans (h'.archive hid)

end Bystands

theorem Orderly.isSimulationId {s : Simulation} (h : e.Orderly)
    (hs : e.simulations.get? id = some s) : IsSimulationId id := by
  obtain ⟨n, -, hname⟩ := h.numbered hs
  exact ⟨n, hname⟩

end Engine

end StepWorld
