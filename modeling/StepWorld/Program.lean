import StepWorld.Expr
import StepWorld.Syntax.Token

/-! Declarations: entities with their properties and events, and rules, in the order in
which they were declared. -/

namespace StepWorld

inductive ScalarType where
  | int
  | float
  | bool
  | string
deriving DecidableEq, Repr

/-- The declared type of a property. It fixes only the value a fresh instance starts with. -/
inductive PropertyType where
  | scalar (type : ScalarType)
  | enum (values : List String)
  | intRange (min max : Int)
  | list (element : String)
deriving DecidableEq, Repr

def PropertyType.default : PropertyType → Value
  | .scalar .int => .int 0
  | .scalar .float => .float 0
  | .scalar .bool => .bool false
  | .scalar .string => .str ""
  | .enum [] => .null
  | .enum (first :: _) => .str first
  | .intRange min _ => .int min
  | .list _ => .ofItems []

structure PropertyDecl where
  name : String
  type : PropertyType

/-- An effect that applies only when a draw falls below its weight. -/
structure WeightedEffect where
  effect : Expr
  weight : Float

structure EventDecl where
  name : String
  condition : Option Expr
  target : Option String
  effect : Option Expr
  weighted : List WeightedEffect

structure TemporalClause where
  op : TemporalOp
  operands : List Expr

def TemporalClause.toExpr (c : TemporalClause) : Expr := .temporal c.op c.operands

structure ProbabilityClause where
  event : Expr
  comparison : String
  threshold : Float

def ProbabilityClause.toExpr (c : ProbabilityClause) : Expr :=
  .probability c.event c.comparison c.threshold

structure RuleDecl where
  name : String
  condition : Option Expr
  effect : Option Expr
  temporal : List TemporalClause
  probability : List ProbabilityClause

structure EntityDecl where
  name : String
  properties : List PropertyDecl
  events : List EventDecl
  line : Nat

inductive Surroundings where
  | specification
  | entity (name : String)
  | event (name : String)
  | rule (name : String)
deriving DecidableEq, Repr

def Surroundings.text : Surroundings → String
  | .specification => "specification"
  | .entity name => "entity " ++ name
  | .event name => "event " ++ name
  | .rule name => "rule " ++ name

/-- The first token of a run of tokens that fitted nowhere and were passed over. -/
structure SkippedRun where
  token : Token
  surroundings : Surroundings
deriving DecidableEq, Repr

def SkippedRun.message (s : SkippedRun) : String :=
  "Line " ++ toString s.token.position.line ++ ": skipped unexpected " ++ s.token.describe ++
    " in " ++ s.surroundings.text

structure Program where
  entities : List EntityDecl
  rules : List RuleDecl
  warnings : List SkippedRun

def EntityDecl.event? (entity : EntityDecl) (name : String) : Option EventDecl :=
  entity.events.find? (·.name == name)

def EntityDecl.defaultState (entity : EntityDecl) : Record :=
  Table.ofEntries (entity.properties.map fun p => (p.name, p.type.default))

def Program.entity? (program : Program) (name : String) : Option EntityDecl :=
  program.entities.find? (·.name == name)

def Program.rule? (program : Program) (name : String) : Option RuleDecl :=
  program.rules.find? (·.name == name)

inductive Node where
  | program (program : Program)
  | entity (entity : EntityDecl)
  | property (property : PropertyDecl)
  | type (type : PropertyType)
  | event (event : EventDecl)
  | weighted (effect : WeightedEffect)
  | rule (rule : RuleDecl)
  | expr (expr : Expr)

def Expr.asNodes (e : Expr) : List Node := e.nodes.map Node.expr

def optionalNodes (e : Option Expr) : List Node := e.elim [] Expr.asNodes

def PropertyDecl.nodes (p : PropertyDecl) : List Node := [.property p, .type p.type]

def WeightedEffect.nodes (w : WeightedEffect) : List Node := .weighted w :: w.effect.asNodes

def EventDecl.nodes (e : EventDecl) : List Node :=
  .event e :: (optionalNodes e.condition ++ optionalNodes e.effect ++
    e.weighted.flatMap WeightedEffect.nodes)

def RuleDecl.nodes (r : RuleDecl) : List Node :=
  .rule r :: (optionalNodes r.condition ++ optionalNodes r.effect ++
    r.temporal.flatMap (·.toExpr.asNodes) ++ r.probability.flatMap (·.toExpr.asNodes))

def EntityDecl.nodes (e : EntityDecl) : List Node :=
  .entity e :: (e.properties.flatMap PropertyDecl.nodes ++ e.events.flatMap EventDecl.nodes)

/-- A program and all in it, parents first and in the order of declaration. -/
def Program.nodes (p : Program) : List Node :=
  .program p :: (p.entities.flatMap EntityDecl.nodes ++ p.rules.flatMap RuleDecl.nodes)

def Node.isTemporal : Node → Bool
  | .expr e => e.isTemporal
  | _ => false

def Node.isProbability : Node → Bool
  | .expr e => e.isProbability
  | _ => false

def Program.hasTemporal (p : Program) : Bool := p.nodes.any Node.isTemporal

def Program.hasProbability (p : Program) : Bool :=
  p.nodes.any Node.isProbability ||
    p.entities.any fun entity => entity.events.any fun event => !event.weighted.isEmpty

end StepWorld
