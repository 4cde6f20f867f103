/-! Tables: keyed entries in the order in which their keys were first put. -/

namespace StepWorld

abbrev Table (α : Type) := List (String × α)

namespace Table

variable {α β : Type}

def get? (key : String) : Table α → Option α
  | [] => none
  | (k, v) :: rest => if k = key then some v else get? key rest

def has (key : String) (t : Table α) : Bool := (get? key t).isSome

/-- Sets a key's entry. A known key keeps its place, a new one goes last. -/
def put (key : String) (value : α) : Table α → Table α
  | [] => [(key, value)]
  | (k, v) :: rest => if k = key then (k, value) :: rest else (k, v) :: put key value rest

def putAll (t entries : Table α) : Table α := entries.foldl (fun t e => put e.1 e.2 t) t

def remove (key : String) (t : Table α) : Table α := t.filter fun e => e.1 != key

def modify (key : String) (f : α → α) : Table α → Table α
  | [] => []
  | (k, v) :: rest => if k = key then (k, f v) :: rest else (k, v) :: modify key f rest

def keys (t : Table α) : List String := t.map Prod.fst

def values (t : Table α) : List α := t.map Prod.snd

/-- A table from entries in order; a later entry of a key replaces an earlier one. -/
def ofEntries (entries : List (String × α)) : Table α := putAll [] entries

theorem get?_put (key other : String) (value : α) (t : Table α) :
    get? other (put key value t) = if other = key then some value else get? other t := by
  induction t with
  | nil => by_cases h : key = other <;> simp [put, get?, h, eq_comm]
  | cons e rest ih =>
    obtain ⟨k, v⟩ := e
    by_cases hk : k = key
    · subst hk
      by_cases h : k = other
      · simp [put, get?, h]
      · have h' : ¬ other = k := fun e => h e.symm
        simp [put, get?, h, h']
    · by_cases h : k = other
      · subst h
        simp [put, get?, hk]
      · simp [put, get?, hk, h, ih]

theorem get?_remove (key other : String) (t : Table α) :
    get? other (remove key t) = if other = key then none else get? other t := by
  induction t with
  | nil => simp [remove, get?]
  | cons e rest ih =>
    obtain ⟨k, v⟩ := e
    simp only [remove] at ih
    by_cases hk : k = key
    · subst hk
      by_cases h : k = other
      · subst h
        simpa [remove, get?] using ih
      · have h' : ¬ other = k := fun e => h e.symm
        simpa [remove, get?, h, h'] using ih
    · by_cases h : k = other
      · subst h
        simp [remove, get?, hk]
      · simpa [remove, get?, hk, h] using ih

end Table

end StepWorld
