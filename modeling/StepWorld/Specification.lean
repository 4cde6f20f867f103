import StepWorld.Options
import StepWorld.Review

/-! Registered specifications: a program with its source and what is known of it. -/

namespace StepWorld

/-- A specification, with what its program is said to hold. Times are stamps. -/
structure Specification where
  source : String
  program : Program
  name : String
  description : Option String
  createdAt : Nat
  updatedAt : Nat
  entityCount : Nat
  ruleCount : Nat
  hasTemporal : Bool
  hasProbability : Bool

inductive Refusal where
  | problems (problems : List Problem)
  | numeral (fault : Fault)

def Program.registrationProblems (p : Program) : List Problem :=
  p.duplicateProblems ++ if p.entities.isEmpty then [.noEntities] else []

def registrable (source : String) : Except Refusal Program :=
  match readProgram source with
  | .error (.lexical e) => .error (.problems [.lexical e])
  | .error (.structural e) => .error (.problems [.structural e])
  | .error (.numeral fault) => .error (.numeral fault)
  | .ok p =>
    match p.registrationProblems with
    | [] => .ok p
    | problems => .error (.problems problems)

def nameOr (name : Option String) (other : String) : String := (name.filter (· != "")).getD other

namespace Specification

/-- A new specification. It is named after its first entity unless it is given a name. -/
def create (source : String) (program : Program) (name description : Option String)
    (stamp : Nat) : Specification where
  source
  program
  name := nameOr name ((program.entities.head?.map (·.name)).getD "")
  description
  createdAt := stamp
  updatedAt := stamp
  entityCount := program.entities.length
  ruleCount := program.rules.length
  hasTemporal := program.hasTemporal
  hasProbability := program.hasProbability

def revise (s : Specification) (source : String) (program : Program)
    (name description : Option String) (stamp : Nat) : Specification where
  source
  program
  name := nameOr name s.name
  description := description.or s.description
  createdAt := s.createdAt
  updatedAt := stamp
  entityCount := program.entities.length
  ruleCount := program.rules.length
  hasTemporal := program.hasTemporal
  hasProbability := program.hasProbability

def status (_ : Specification) : SpecificationStatus := .parsed

end Specification

def wanted {α : Type} [BEq α] (wish : Option α) (a : α) : Bool := wish.all (· == a)

namespace SpecificationFilter

def accepts (f : SpecificationFilter) (s : Specification) : Bool :=
  wanted f.status s.status && wanted f.hasTemporal s.hasTemporal &&
    wanted f.hasProbability s.hasProbability

end SpecificationFilter

/-- A bound of a slice as a position. Negative bounds count from the end. -/
def slicePosition (length : Nat) (bound : Int) : Nat :=
  if bound < 0 then (bound + length).toNat else min bound.toNat length

def slice {α : Type} (start stop : Int) (items : List α) : List α :=
  (items.take (slicePosition items.length stop)).drop (slicePosition items.length start)

/-- The ids of the specifications that a filter accepts, the latest update first, as far as
its page reaches. -/
def SpecificationFilter.select (f : SpecificationFilter) (specifications : Table Specification) :
    List String :=
  let accepted := specifications.filter fun e => f.accepts e.2
  let sorted := accepted.mergeSort fun a b => b.2.updatedAt ≤ a.2.updatedAt
  (slice f.offset (f.offset + f.limit) sorted).map (·.1)

end StepWorld
