import StepWorld.Proofs.Outcomes
import StepWorld.Proofs.World.Rules
import StepWorld.Proofs.World.Replay

/-! Values without floats. They stay without floats and no number fails, as long as nothing is
divided: whole numbers are added, subtracted, multiplied, compared and drawn, and anything else
comes to null or to a truth value. -/

namespace StepWorld

/-! ### Tables -/

def Table.All {α : Type} (P : α → Prop) (t : Table α) : Prop := ∀ entry ∈ t, P entry.2

instance {α : Type} (P : α → Prop) [DecidablePred P] (t : Table α) : Decidable (t.All P) :=
  inferInstanceAs (Decidable (∀ entry ∈ t, P entry.2))

namespace Table.All

variable {α : Type} {P : α → Prop} {t entries : Table α} {key : String} {a : α}

theorem nil : Table.All P ([] : Table α) := List.forall_mem_nil _

theorem get? (h : t.All P) (hget : t.get? key = some a) : P a := h _ (mem_of_get? hget)

theorem put (h : t.All P) (ha : P a) : (t.put key a).All P := by
  induction t with
  | nil => exact fun entry hentry => List.mem_singleton.mp hentry ▸ ha
  | cons first rest ih =>
    obtain ⟨hfirst, hrest⟩ := List.forall_mem_cons.mp h
    unfold Table.put
    split
    · exact List.forall_mem_cons.mpr ⟨ha, hrest⟩
    · exact List.forall_mem_cons.mpr ⟨hfirst, ih hrest⟩

theorem putAll (h : t.All P) (hentries : entries.All P) : (t.putAll entries).All P := by
  induction entries generalizing t with
  | nil => exact h
  | cons first rest ih =>
    obtain ⟨hfirst, hrest⟩ := List.forall_mem_cons.mp hentries
    exact ih (h.put hfirst) hrest

theorem modify {f : α → α} (h : t.All P) (hf : ∀ a, P a → P (f a)) : (t.modify key f).All P := by
  induction t with
  | nil => exact h
  | cons first rest ih =>
    obtain ⟨hfirst, hrest⟩ := List.forall_mem_cons.mp h
    unfold Table.modify
    split
    · exact List.forall_mem_cons.mpr ⟨hf _ hfirst, hrest⟩
    · exact List.forall_mem_cons.mpr ⟨hfirst, ih hrest⟩

end Table.All

/-! ### Values -/

namespace Value

mutual

def isExact : Value → Bool
  | .float _ | .nan _ => false
  | .list _ items => itemsExact items
  | .map fields => fieldsExact fields
  | _ => true

def itemsExact : List Value → Bool
  | [] => true
  | v :: rest => isExact v && itemsExact rest

def fieldsExact : List (String × Value) → Bool
  | [] => true
  | (_, v) :: rest => isExact v && fieldsExact rest

end

theorem fieldsExact_iff {fields : List (String × Value)} :
    fieldsExact fields = true ↔ Table.All (·.isExact = true) fields := by
  unfold Table.All
  induction fields with
  | nil => simp [fieldsExact]
  | cons first rest ih => simp [fieldsExact, ih]

mutual

theorem isExact_madeFor (id property : String) (place : List Nat) (v : Value) :
    (v.madeFor id property place).isExact = v.isExact := by
  cases v with
  | list origin items =>
    simp only [madeFor, isExact, itemsExact_madeFor id property place 0 items]
  | map fields => simp only [madeFor, isExact, fieldsExact_madeFor id property place 0 fields]
  | _ => simp only [madeFor]

theorem itemsExact_madeFor (id property : String) (place : List Nat) (index : Nat)
    (items : List Value) :
    itemsExact (itemsMadeFor id property place index items) = itemsExact items := by
  match items with
  | [] => simp only [itemsMadeFor]
  | v :: rest =>
    simp only [itemsMadeFor, itemsExact, isExact_madeFor id property (index :: place) v,
      itemsExact_madeFor id property place (index + 1) rest]

theorem fieldsExact_madeFor (id property : String) (place : List Nat) (index : Nat)
    (fields : List (String × Value)) :
    fieldsExact (fieldsMadeFor id property place index fields) = fieldsExact fields := by
  match fields with
  | [] => simp only [fieldsMadeFor]
  | (key, v) :: rest =>
    simp only [fieldsMadeFor, fieldsExact, isExact_madeFor id property (index :: place) v,
      fieldsExact_madeFor id property place (index + 1) rest]

end

theorem whole_of_number? {v : Value} {a : Number} (h : v.isExact = true)
    (ha : v.number? = some a) : ∃ n, a = .whole n := by
  cases v with
  | int n => exact ⟨n, (Option.some.inj ha).symm⟩
  | float | nan => cases h
  | _ => cases ha

theorem isExact_of_extreme? {wanted : Relation} {best v : Value} {rest : List Value}
    (hbest : best.isExact = true) (hrest : ∀ w ∈ rest, w.isExact = true)
    (hv : extreme? wanted best rest = some v) : v.isExact = true := by
  induction rest generalizing best with
  | nil => exact Option.some.inj hv ▸ hbest
  | cons next rest ih =>
    obtain ⟨hnext, hrest⟩ := List.forall_mem_cons.mp hrest
    unfold extreme? at hv
    split at hv
    · cases hv
    · refine ih ?_ hrest hv
      split
      · exact hnext
      · exact hbest

theorem isExact_extreme {wanted : Relation} {args : List Value}
    (h : ∀ v ∈ args, v.isExact = true) : (extreme wanted args).isExact = true := by
  cases args with
  | nil => rfl
  | cons first rest =>
    obtain ⟨hfirst, hrest⟩ := List.forall_mem_cons.mp h
    change ((extreme? wanted first rest).getD .null).isExact = true
    cases hv : extreme? wanted first rest with
    | none => rfl
    | some v => exact isExact_of_extreme? hfirst hrest hv

end Value

def Record.Exact (r : Record) : Prop := r.All (·.isExact = true)

instance : DecidablePred Record.Exact := fun r =>
  inferInstanceAs (Decidable (r.All fun v : Value => v.isExact = true))

theorem Record.Exact.madeFor {r : Record} (h : r.Exact) (id : String) :
    (r.madeFor id).Exact := by
  intro entry hentry
  obtain ⟨entry, hmem, rfl⟩ := List.mem_map.mp hentry
  exact (Value.isExact_madeFor id entry.1 [] entry.2).trans (h entry hmem)

structure Bindings.Exact (b : Bindings) : Prop where
  acting : ∀ r, b.acting = some r → r.Exact
  target : ∀ r, b.target = some r → r.Exact
  vars : b.vars.Exact

namespace Bindings.Exact

variable {b : Bindings}

theorem of_vars {vars : Record} (h : vars.Exact) : Bindings.Exact ⟨none, none, vars⟩ where
  acting _ hr := by cases hr
  target _ hr := by cases hr
  vars := h

theorem fieldOf {state : Option Record} (h : ∀ r, state = some r → r.Exact) (name : String) :
    (Bindings.fieldOf state name).isExact = true := by
  unfold Bindings.fieldOf
  cases hget : (state.getD []).get? name with
  | none => rfl
  | some v =>
    cases state with
    | none => cases hget
    | some r => exact (h r rfl).get? hget

theorem named (h : b.Exact) (name : String) : (b.named name).isExact = true := by
  unfold Bindings.named
  cases hget : b.vars.get? name with
  | none => rfl
  | some v => exact h.vars.get? hget

theorem property (h : b.Exact) (owner name : String) : (b.property owner name).isExact = true := by
  unfold Bindings.property
  split
  · exact fieldOf h.acting name
  split
  · exact fieldOf h.target name
  split
  · next fields hget =>
    have hfields : Value.fieldsExact fields = true := h.vars.get? hget
    cases hfield : Table.get? name fields with
    | none => rfl
    | some v => exact (Value.fieldsExact_iff.mp hfields).get? hfield
  · next hget => exact h.vars.get? hget
  · rfl

end Bindings.Exact

/-! ### Expressions -/

/-- Whether an expression brings in no float of its own: it holds none and does not divide. -/
def Expr.isExact : Expr → Bool
  | .literal value => value.isExact
  | .binary op _ _ => op != "/" && op != "%"
  | .assignment op _ _ => op != "/="
  | .create _ properties => Value.fieldsExact properties
  | _ => true

def Expr.Exact (e : Expr) : Prop := ∀ part ∈ e.nodes, part.isExact = true

abbrev Eval.Yields {α : Type} (P : α → Prop) (x : Eval α) : Prop :=
  Meets (fun _ => True) (fun _ => False) P x

theorem Eval.yields_ofExcept {α : Type} {P : α → Prop} {x : Except Fault α}
    (h : Admits (fun _ => False) P x) : Yields P (ofExcept x) := by
  cases x with
  | ok a => exact .of_pure h
  | error fault => exact h.elim

theorem BinaryRole.exact_of_ofText {op : String} {a : Arithmetic} (h : op ≠ "/") (h' : op ≠ "%")
    (hrole : ofText op = .arithmetic a) : a ≠ .divide ∧ a ≠ .remainder := by
  unfold ofText at hrole
  repeat' split at hrole
  all_goals try cases hrole
  next harith =>
    unfold Arithmetic.ofText? at harith
    split at harith <;> cases harith <;> simp_all

theorem isExact_applyUnary (op : String) {v : Value} (h : v.isExact = true) :
    (applyUnary op v).isExact = true := by
  unfold applyUnary
  split
  · rfl
  split
  · cases v with
    | float | nan => cases h
    | _ => rfl
  · rfl

theorem exact_applyBinary {op : String} (h : op ≠ "/") (h' : op ≠ "%") {left right : Value}
    (hleft : left.isExact = true) (hright : right.isExact = true) :
    Admits (fun _ => False) (·.isExact = true) (applyBinary (.ofText op) left right) := by
  unfold applyBinary
  split
  · rfl
  · next arith hrole =>
    obtain ⟨hdivide, hremainder⟩ := BinaryRole.exact_of_ofText h h' hrole
    split
    · next a b ha hb =>
      obtain ⟨m, rfl⟩ := Value.whole_of_number? hleft ha
      obtain ⟨n, rfl⟩ := Value.whole_of_number? hright hb
      cases arith with
      | add | subtract | multiply => rfl
      | divide => exact absurd rfl hdivide
      | remainder => exact absurd rfl hremainder
    · rfl
  · rfl

theorem Function.yields_apply (f : Function) {args : List Value}
    (h : ∀ v ∈ args, v.isExact = true) : (f.apply args).Yields (·.isExact = true) := by
  cases f with
  | rand =>
    unfold Function.apply
    dsimp only
    split
    · next a b hargs =>
      obtain ⟨v, w, rfl, hv, hw⟩ : ∃ v w, args = [v, w] ∧ v.number? = some a ∧
          w.number? = some b := by
        match args with
        | [v, w] => simpa using hargs
        | [] | [_] | _ :: _ :: _ :: _ => simp at hargs
      obtain ⟨m, rfl⟩ := Value.whole_of_number? (h v (by simp)) hv
      obtain ⟨n, rfl⟩ := Value.whole_of_number? (h w (by simp)) hw
      exact fun chance _ => ⟨rfl, trivial⟩
    · exact .of_pure rfl
  | min => exact .of_pure (Value.isExact_extreme h)
  | max => exact .of_pure (Value.isExact_extreme h)

mutual

/-- An exact expression has an exact value wherever names mean exact values. -/
theorem yields_evaluate (placeholder : Value) {b : Bindings} (hb : b.Exact) (e : Expr)
    (h : e.Exact) : (evaluate placeholder b e).Yields (·.isExact = true) := by
  have hself : e.isExact = true := h e e.mem_nodes
  unfold evaluate
  split
  · exact .of_pure hself
  · exact .of_pure (hb.named _)
  · exact .of_pure (hb.property _ _)
  · next function args =>
    split
    · exact .of_pure rfl
    · next f _ =>
      refine .of_bind (yields_evaluateAll placeholder hb args fun part hpart =>
        h part (List.mem_cons_of_mem _ hpart)) fun values hvalues => ?_
      exact f.yields_apply hvalues
  · next op operand =>
    have hoperand : operand.Exact := fun part hpart => h part (List.mem_cons_of_mem _ hpart)
    exact .of_bind (yields_evaluate placeholder hb operand hoperand) fun v hv =>
      .of_pure (isExact_applyUnary op hv)
  · next op left right =>
    have hleft : left.Exact := fun part hpart =>
      h part (List.mem_cons_of_mem _ (List.mem_append_left _ hpart))
    have hright : right.Exact := fun part hpart =>
      h part (List.mem_cons_of_mem _ (List.mem_append_right _ hpart))
    -- A connective may leave out its second operand, and yields a truth value anyway.
    have hsecond := yields_evaluate placeholder hb right hright
    have htruth : Eval.Yields (·.isExact = true)
        (do return Value.bool (← evaluate placeholder b right).truth) :=
      hsecond.of_bind fun _ _ => .of_pure rfl
    have hfalse (truth : Bool) : Eval.Yields (·.isExact = true) (pure (Value.bool truth)) :=
      .of_pure rfl
    -- Without divisions and remainders no operator makes a float of exact values.
    obtain ⟨hdivide, hremainder⟩ : op ≠ "/" ∧ op ≠ "%" := by simpa [Expr.isExact] using hself
    refine .of_bind (yields_evaluate placeholder hb left hleft) fun first hfirst => ?_
    split
    · exact .of_ite (fun _ => htruth) fun _ => hfalse _
    · exact .of_ite (fun _ => hfalse _) fun _ => htruth
    · exact .of_ite (fun _ => htruth) fun _ => hfalse _
    · exact .of_bind hsecond fun second hsecond =>
        Eval.yields_ofExcept (exact_applyBinary hdivide hremainder hfirst hsecond)
  · next operand rest =>
    have hoperand : operand.Exact := fun part hpart =>
      h part (List.mem_cons_of_mem _ (List.mem_append_left _ hpart))
    exact .of_bind (yields_evaluate placeholder hb operand hoperand) fun _ _ => .of_pure rfl
  · exact .of_pure rfl
  · exact .of_pure rfl
  · exact .of_pure rfl
  · exact .of_pure rfl
  · exact .of_pure rfl

theorem yields_evaluateAll (placeholder : Value) {b : Bindings} (hb : b.Exact) (es : List Expr)
    (h : ∀ part ∈ Expr.nodesOf es, part.isExact = true) :
    (evaluateAll placeholder b es).Yields fun values => ∀ v ∈ values, v.isExact = true := by
  match es with
  | [] =>
    unfold evaluateAll
    exact .of_pure fun v hv => by cases hv
  | e :: rest =>
    unfold evaluateAll
    have he : e.Exact := fun part hpart => h part (List.mem_append_left _ hpart)
    have hrest := fun part hpart => h part (List.mem_append_right _ hpart)
    refine .of_bind (yields_evaluate placeholder hb e he) fun value hvalue => ?_
    exact .of_bind (yields_evaluateAll placeholder hb rest hrest) fun values hvalues =>
      .of_pure (List.forall_mem_cons.mpr ⟨hvalue, hvalues⟩)

end

theorem yields_holds (placeholder : Value) {b : Bindings} (hb : b.Exact) {condition : Option Expr}
    (h : ∀ e, condition = some e → e.Exact) :
    (holds placeholder b condition).Yields fun _ => True := by
  cases condition with
  | none => exact .of_pure trivial
  | some e =>
    exact .of_bind (yields_evaluate placeholder hb e (h e rfl)) fun _ _ => .of_pure trivial

end StepWorld
