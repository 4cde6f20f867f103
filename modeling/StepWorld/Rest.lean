/-! What is left of a list after items were taken from its front. Readers hand it back, and
its type says that it is shorter, which is why their recursion ends. -/

namespace StepWorld

variable {α : Type}

abbrev Rest (items : List α) := { rest : List α // rest.length < items.length }

abbrev Remainder (items : List α) := { rest : List α // rest.length ≤ items.length }

namespace Remainder

def all (items : List α) : Remainder items := ⟨items, Nat.le_refl _⟩

def within {items rest : List α} (more : Remainder rest) (h : rest.length < items.length) :
    Rest items :=
  ⟨more.1, Nat.lt_of_le_of_lt more.2 h⟩

def under {rest : List α} (more : Remainder rest) (a : α) : Rest (a :: rest) :=
  ⟨more.1, Nat.lt_succ_of_le more.2⟩

end Remainder

namespace Rest

def tail (a : α) (rest : List α) : Rest (a :: rest) := ⟨rest, Nat.lt_succ_self _⟩

def weaken {items : List α} (rest : Rest items) : Remainder items :=
  ⟨rest.1, Nat.le_of_lt rest.2⟩

def within {items rest : List α} (more : Rest rest) (h : rest.length < items.length) :
    Rest items :=
  more.weaken.within h

def under {rest : List α} (more : Rest rest) (a : α) : Rest (a :: rest) :=
  more.weaken.under a

def andThen {items : List α} {ε β : Type} (rest : Rest items)
    (read : (part : List α) → Except ε (β × Rest part)) : Except ε (β × Rest items) :=
  match rest with
  | ⟨part, h⟩ =>
    match read part with
    | .ok (b, more) => .ok (b, more.within h)
    | .error e => .error e

end Rest

end StepWorld
