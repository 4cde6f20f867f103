import StepWorld.Proofs.Agreement
import StepWorld.Proofs.World.Parts
import StepWorld.World.Execution

/-! Expressions without a random draw. They have the same value whatever chance brings. -/

namespace StepWorld

variable {α β : Type}

/-- Whether an expression is a call of the function that draws. -/
def Expr.isRand : Expr → Bool
  | .call function _ => function == "Rand"
  | _ => false

def Expr.Drawless (e : Expr) : Prop := ∀ part ∈ e.nodes, part.isRand = false

def Eval.Certain (x : Eval α) : Prop := ∃ result, ∀ chance, x.run.run chance = (result, chance)

namespace Eval.Certain

theorem of_pure (a : α) : Certain (pure a : Eval α) := ⟨.ok a, fun _ => rfl⟩

theorem of_ofExcept (x : Except Fault α) : Certain (ofExcept x) := by
  cases x with
  | ok a => exact of_pure a
  | error fault => exact ⟨.error fault, fun _ => rfl⟩

theorem of_bind {x : Eval α} {next : α → Eval β} (h : Certain x) (hnext : ∀ a, Certain (next a)) :
    Certain (x >>= next) := by
  obtain ⟨result, hresult⟩ := h
  cases result with
  | ok a =>
    obtain ⟨after, hafter⟩ := hnext a
    exact ⟨after, fun chance => by rw [run_bind, hresult]; exact hafter chance⟩
  | error fault => exact ⟨.error fault, fun chance => by rw [run_bind, hresult]⟩

theorem of_ite {c : Prop} [Decidable c] {first second : Eval α} (h : Certain first)
    (h' : Certain second) : Certain (if c then first else second) := by
  split
  · exact h
  · exact h'

end Eval.Certain

theorem Function.certain_apply {f : Function} (h : f ≠ .rand) (args : List Value) :
    (f.apply args).Certain := by
  cases f with
  | rand => exact absurd rfl h
  | min => exact .of_pure _
  | max => exact .of_pure _

theorem Function.ne_rand_of_name {name : String} {f : Function} (h : ofName? name = some f)
    (hname : name ≠ "Rand") : f ≠ .rand := by
  rintro rfl
  unfold ofName? at h
  split at h
  · exact hname rfl
  · cases h
  · cases h
  · cases h

mutual

theorem certain_evaluate (placeholder : Value) (b : Bindings) (e : Expr) (h : e.Drawless) :
    (evaluate placeholder b e).Certain := by
  unfold evaluate
  split
  · exact .of_pure _
  · exact .of_pure _
  · exact .of_pure _
  · next function args =>
    have hargs : ∀ part ∈ Expr.nodesOf args, part.isRand = false :=
      fun part hpart => h part (List.mem_cons_of_mem _ hpart)
    have hself : function ≠ "Rand" := by
      simpa [Expr.isRand] using h _ List.mem_cons_self
    split
    · exact .of_pure _
    · next f hf =>
      refine .of_bind (certain_evaluateAll placeholder b args hargs) fun values => ?_
      exact Function.certain_apply (Function.ne_rand_of_name hf hself) values
  · next op operand =>
    have hoperand : operand.Drawless := fun part hpart => h part (List.mem_cons_of_mem _ hpart)
    exact .of_bind (certain_evaluate placeholder b operand hoperand) fun _ => .of_pure _
  · next op left right =>
    have hleft : left.Drawless := fun part hpart =>
      h part (List.mem_cons_of_mem _ (List.mem_append_left _ hpart))
    have hright : right.Drawless := fun part hpart =>
      h part (List.mem_cons_of_mem _ (List.mem_append_right _ hpart))
    have hsecond := certain_evaluate placeholder b right hright
    have htruth : Eval.Certain (do return Value.bool (← evaluate placeholder b right).truth) :=
      hsecond.of_bind fun _ => .of_pure _
    refine .of_bind (certain_evaluate placeholder b left hleft) fun first => ?_
    split
    · exact .of_ite htruth (.of_pure _)
    · exact .of_ite (.of_pure _) htruth
    · exact .of_ite htruth (.of_pure _)
    · exact .of_bind hsecond fun _ => .of_ofExcept _
  · next operand rest =>
    have hoperand : operand.Drawless := fun part hpart =>
      h part (List.mem_cons_of_mem _ (List.mem_append_left _ hpart))
    exact .of_bind (certain_evaluate placeholder b operand hoperand) fun _ => .of_pure _
  · exact .of_pure _
  · exact .of_pure _
  · exact .of_pure _
  · exact .of_pure _
  · exact .of_pure _

theorem certain_evaluateAll (placeholder : Value) (b : Bindings) (es : List Expr)
    (h : ∀ part ∈ Expr.nodesOf es, part.isRand = false) :
    (evaluateAll placeholder b es).Certain := by
  match es with
  | [] =>
    unfold evaluateAll
    exact .of_pure _
  | e :: rest =>
    unfold evaluateAll
    have he : e.Drawless := fun part hpart => h part (List.mem_append_left _ hpart)
    have hrest := fun part hpart => h part (List.mem_append_right _ hpart)
    refine .of_bind (certain_evaluate placeholder b e he) fun value => ?_
    exact .of_bind (certain_evaluateAll placeholder b rest hrest) fun values => .of_pure _

end

theorem certain_holds {placeholder : Value} {b : Bindings} {condition : Option Expr}
    (h : ∀ e, condition = some e → e.Drawless) : (holds placeholder b condition).Certain := by
  cases condition with
  | none => exact .of_pure _
  | some e => exact .of_bind (certain_evaluate placeholder b e (h e rfl)) fun _ => .of_pure _

theorem Act.run_eval_certain {x : Eval α} {result : Except Fault α}
    (h : ∀ chance, x.run.run chance = (result, chance)) (s : Stage) :
    (Act.eval x).run.run s = (result.mapError Halt.fault, s) := by
  have hchance := h s.ambient.chance
  unfold Act.eval
  simp only [ExceptT.run, ExceptT.mk, StateT.run] at hchance ⊢
  rw [hchance]
  cases result <;> rfl

theorem Run.run_eval_certain {x : Eval α} {result : Except Fault α}
    (h : ∀ chance, x.run.run chance = (result, chance)) (a : Arena) :
    (Run.eval x).run.run a = (result, a) := by
  have hchance := h a.ambient.chance
  unfold Run.eval
  simp only [ExceptT.run, ExceptT.mk, StateT.run] at hchance ⊢
  rw [hchance]

end StepWorld
