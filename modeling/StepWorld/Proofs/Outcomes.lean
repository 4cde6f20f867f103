import StepWorld.Proofs.Moves

/-! How a computation with a state may come out. What is known of the state holds wherever it ends,
its results are of one kind, and so are the errors that it may stop with. -/

namespace StepWorld

variable {σ ε α β : Type} {I : σ → Prop} {E : ε → Prop} {P : α → Prop} {Q : β → Prop}

theorem toOption_eq_some_iff {result : Except ε α} {a : α} :
    result.toOption = some a ↔ result = .ok a := by
  cases result <;> simp [Except.toOption]

def Admits (E : ε → Prop) (P : α → Prop) : Except ε α → Prop
  | .ok a => P a
  | .error error => E error

theorem Admits.bind {first : Except ε α} {next : α → Except ε β} (h : Admits E P first)
    (hnext : ∀ a, P a → Admits E Q (next a)) : Admits E Q (first >>= next) := by
  cases first with
  | ok a => exact hnext a h
  | error error => exact h

theorem Admits.mono {P' : α → Prop} {result : Except ε α} (h : Admits E P result)
    (hweaker : ∀ a, P a → P' a) : Admits E P' result := by
  cases result with
  | ok a => exact hweaker a h
  | error error => exact h

structure MeetsAt (I : σ → Prop) (E : ε → Prop) (P : α → Prop) (task : ExceptT ε (StateM σ) α)
    (s : σ) : Prop where
  result : Admits E P (task.run.run s).1
  state : I (task.run.run s).2

def Meets (I : σ → Prop) (E : ε → Prop) (P : α → Prop) (task : ExceptT ε (StateM σ) α) : Prop :=
  ∀ s, I s → MeetsAt I E P task s

theorem MeetsAt.bind {task : ExceptT ε (StateM σ) α} {next : α → ExceptT ε (StateM σ) β} {s : σ}
    (h : MeetsAt I E P task s) (hnext : ∀ a t, P a → I t → MeetsAt I E Q (next a) t) :
    MeetsAt I E Q (task >>= next) s := by
  obtain ⟨hresult, hstate⟩ := h
  suffices hrun : Admits E Q ((task >>= next).run.run s).1 ∧ I ((task >>= next).run.run s).2 from
    ⟨hrun.1, hrun.2⟩
  rw [run_bind]
  generalize task.run.run s = result at hresult hstate
  obtain ⟨result, t⟩ := result
  cases result with
  | ok a =>
    obtain ⟨hresult, hstate⟩ := hnext a t hresult hstate
    exact ⟨hresult, hstate⟩
  | error error => exact ⟨hresult, hstate⟩

namespace Meets

theorem of_pure {a : α} (h : P a) : Meets I E P (pure a) := fun _ hs => ⟨h, hs⟩

theorem of_throw {error : ε} (h : E error) : Meets I E P (throw error) := fun _ hs => ⟨h, hs⟩

theorem of_modify {f : σ → σ} (h : ∀ s, I s → I (f s)) :
    Meets I E (fun _ => True) (modify f : ExceptT ε (StateM σ) PUnit) :=
  fun s hs => ⟨trivial, h s hs⟩

theorem of_bind {task : ExceptT ε (StateM σ) α} {next : α → ExceptT ε (StateM σ) β}
    (h : Meets I E P task) (hnext : ∀ a, P a → Meets I E Q (next a)) : Meets I E Q (task >>= next) :=
  fun s hs => (h s hs).bind fun a t ha ht => hnext a ha t ht

theorem of_get_bind {next : σ → ExceptT ε (StateM σ) β}
    (h : ∀ s, I s → MeetsAt I E Q (next s) s) : Meets I E Q (get >>= next) :=
  fun s hs => ⟨(h s hs).result, (h s hs).state⟩

theorem of_ite {c : Prop} [Decidable c] {first second : ExceptT ε (StateM σ) α}
    (h : c → Meets I E P first) (h' : ¬ c → Meets I E P second) :
    Meets I E P (if c then first else second) := by
  split
  · next hc => exact h hc
  · next hc => exact h' hc

end Meets

end StepWorld
