import StepWorld.Proofs.Syntax.Grammar
import StepWorld.Proofs.Syntax.Taken

/-! Binding powers against the categories of the grammar. A power fixes the loosest category
that is read at it, and a category the power at which its right operands are read. -/

namespace StepWorld

variable {t : Token} {c d : Category} {p q : Nat} {start ts mid rest : List Token}
  {e left right : Expr}

namespace Category

def operators : Category → List String
  | assignment => assignmentOperators
  | implication => ["->"]
  | c => c.leftOperators

def fits : Category → Nat → Prop
  | assignment, p => p ≤ 10
  | implication, p => p ≤ 19
  | disjunction, p => p ≤ 29
  | conjunction, p => p ≤ 39
  | comparison, p => p ≤ 49
  | sum, p => p ≤ 59
  | product, p => p ≤ 69
  | unary, _ | operand, _ => True
  | openCall, _ => False

def ofPower (p : Nat) : Category :=
  if p ≤ 10 then assignment
  else if p ≤ 19 then implication
  else if p ≤ 29 then disjunction
  else if p ≤ 39 then conjunction
  else if p ≤ 49 then comparison
  else if p ≤ 59 then sum
  else if p ≤ 69 then product
  else unary

def rightPower : Category → Nat
  | assignment => 10
  | implication => 19
  | disjunction => 30
  | conjunction => 40
  | comparison => 50
  | sum => 60
  | product => 70
  | unary | operand | openCall => 80

def rank : Category → Nat
  | assignment => 0
  | implication => 1
  | disjunction => 2
  | conjunction => 3
  | comparison => 4
  | sum => 5
  | product => 6
  | unary => 7
  | operand | openCall => 8

instance : Decidable (c.fits p) := by
  cases c <;> unfold fits <;> infer_instance

theorem rank_lt_of_tighter (h : c.tighter? = some d) : c.rank < d.rank := by
  cases c <;> cases h <;> decide

theorem rightPower_le_of_tighter (h : c.tighter? = some d) : c.rightPower ≤ d.rightPower := by
  cases c <;> cases h <;> decide

theorem fits_of_tighter (h : c.tighter? = some d) (hp : c.fits p) : d.fits p := by
  cases c <;> cases h <;> simp only [fits] at hp ⊢ <;> omega

theorem fits_of_le (hp : c.fits q) (h : p ≤ q) : c.fits p := by
  cases c <;> simp only [fits] at hp ⊢ <;> omega

theorem ofPower_eq_or_looser (h : d.fits p) :
    ofPower p = d ∨ ∃ c : Category, c.tighter? = some d ∧ c.fits p := by
  by_cases hlooser : ∃ c : Category, c.tighter? = some d ∧ c.fits p
  · exact .inr hlooser
  · left
    have hnot (c : Category) (hc : c.tighter? = some d) : ¬c.fits p :=
      fun hf => hlooser ⟨c, hc, hf⟩
    cases d with
    | assignment => exact if_pos h
    | implication => have := hnot assignment rfl; simp only [fits, ofPower] at *; grind
    | disjunction => have := hnot implication rfl; simp only [fits, ofPower] at *; grind
    | conjunction => have := hnot disjunction rfl; simp only [fits, ofPower] at *; grind
    | comparison => have := hnot conjunction rfl; simp only [fits, ofPower] at *; grind
    | sum => have := hnot comparison rfl; simp only [fits, ofPower] at *; grind
    | product => have := hnot sum rfl; simp only [fits, ofPower] at *; grind
    | unary => have := hnot product rfl; simp only [fits, ofPower] at *; grind
    | operand => exact absurd trivial (hnot unary rfl)
    | openCall => exact h.elim

end Category

theorem Derives.lift {d : Category} (hd : d.fits p) (h : Derives d ts rest e) :
    Derives (.ofPower p) ts rest e := by
  rcases Category.ofPower_eq_or_looser hd with rfl | ⟨c, hc, hf⟩
  · exact h
  · exact lift hf (.descend hc h)
termination_by d.rank
decreasing_by exact Category.rank_lt_of_tighter hc

theorem Derives.of_operand (h : Derives .operand ts rest e) (p : Nat) :
    Derives (.ofPower p) ts rest e :=
  h.lift (d := .operand) trivial

def Token.joins (t : Token) (c : Category) : Prop := t.kind = .operator ∧ t.value ∈ c.operators

theorem mem_assignmentOperators_iff :
    ∀ op ∈ c.operators, op ∈ assignmentOperators ↔ c = .assignment := by
  cases c <;> decide

theorem bindingPower?_of_mem (hc : c ≠ .assignment) :
    ∀ op ∈ c.operators,
      bindingPower? op = some (if op == "->" then c.rightPower + 1 else c.rightPower) := by
  cases c <;> first | exact absurd rfl hc | decide

theorem exists_mem_of_bindingPower? {op : String} {binding : Nat}
    (h : bindingPower? op = some binding) : ∃ c : Category, op ∈ c.operators := by
  unfold bindingPower? at h
  split at h
  case h_1 => exact ⟨.implication, by decide⟩
  case h_2 | h_3 => exact ⟨.disjunction, by decide⟩
  case h_4 | h_5 => exact ⟨.conjunction, by decide⟩
  case h_6 | h_7 | h_8 | h_9 | h_10 | h_11 => exact ⟨.comparison, by decide⟩
  case h_12 | h_13 => exact ⟨.sum, by decide⟩
  case h_14 | h_15 | h_16 => exact ⟨.product, by decide⟩
  case h_17 => cases h

theorem fits_iff_of_mem (hc : c ≠ .assignment) :
    ∀ op ∈ c.operators,
      c.fits p ↔ p < if op == "->" then c.rightPower + 1 else c.rightPower := by
  cases c <;>
    simp [Category.operators, Category.leftOperators, Category.fits, Category.rightPower] <;> grind

theorem rightPower?_of_joins (h : t.joins c) :
    t.rightPower? p = if c.fits p then some c.rightPower else none := by
  obtain ⟨hk, hv⟩ := h
  have hk' : (t.kind != .operator) = false := by simp [hk]
  unfold Token.rightPower?
  simp only [hk', Bool.false_eq_true, if_false, List.contains_iff_mem,
    mem_assignmentOperators_iff _ hv]
  by_cases hc : c = .assignment
  · subst hc
    simp only [if_true, assignmentPower, Category.fits, Category.rightPower]
    grind
  · simp only [hc, if_false, bindingPower?_of_mem hc _ hv, fits_iff_of_mem hc _ hv]
    grind

theorem rightPower?_eq_some_iff :
    t.rightPower? p = some q ↔ ∃ c, t.joins c ∧ c.fits p ∧ q = c.rightPower := by
  constructor
  · intro h
    have hjoins : ∃ c, t.joins c := by
      unfold Token.rightPower? at h
      split at h
      · cases h
      · next hk =>
        have hk' : t.kind = .operator := by simpa using hk
        split at h
        · next ha => exact ⟨.assignment, hk', List.contains_iff_mem.mp ha⟩
        · split at h
          · cases h
          · next hb =>
            obtain ⟨c, hc⟩ := exists_mem_of_bindingPower? hb
            exact ⟨c, hk', hc⟩
    obtain ⟨c, hc⟩ := hjoins
    rw [rightPower?_of_joins hc] at h
    split at h
    · next hf => exact ⟨c, hc, hf, (Option.some.inj h).symm⟩
    · cases h
  · rintro ⟨c, hc, hf, rfl⟩
    rw [rightPower?_of_joins hc, if_pos hf]

/-- No token at the front goes on with an expression that is read at a power. -/
def Stops (p : Nat) (ts : List Token) : Prop := ∀ t ∈ ts.head?, t.rightPower? p = none

theorem Stops.mono (h : Stops p ts) (hp : p ≤ q) : Stops q ts := by
  intro t ht
  rw [Option.eq_none_iff_forall_ne_some]
  intro r hr
  obtain ⟨c, hc, hf, -⟩ := rightPower?_eq_some_iff.mp hr
  have := h t ht
  rw [rightPower?_of_joins hc, if_pos (Category.fits_of_le hf hp)] at this
  cases this

theorem stops_leadingPower : Stops leadingPower ts := by
  intro t _
  rw [Option.eq_none_iff_forall_ne_some]
  intro r hr
  obtain ⟨c, ⟨-, hv⟩, hf, -⟩ := rightPower?_eq_some_iff.mp hr
  cases c <;> simp [Category.fits, leadingPower, Category.operators, Category.leftOperators] at *

theorem continueExpr_of_stops {finish : Position} (h : Stops p ts) :
    taken (continueExpr finish p e ts) = some (e, ts) := by
  cases ts with
  | nil => exact taken_continueExpr_nil finish p e
  | cons t rest => rw [taken_continueExpr_cons, h t rfl]

end StepWorld
