import StepWorld.Value

/-! Expressions: conditions, effects and the structured changes of a world. They are read
once and never mention source text again. -/

namespace StepWorld

/-- `G` always, `F` eventually, `X` next, `U` until. -/
inductive TemporalOp where
  | always
  | eventually
  | next
  | until
deriving DecidableEq, Repr

namespace TemporalOp

def name : TemporalOp → String
  | .always => "G"
  | .eventually => "F"
  | .next => "X"
  | .until => "U"

def ofName? : String → Option TemporalOp
  | "G" => some .always
  | "F" => some .eventually
  | "X" => some .next
  | "U" => some .until
  | _ => none

theorem ofName?_name (op : TemporalOp) : ofName? op.name = some op := by
  cases op <;> rfl

end TemporalOp

/-- Operators are kept by their text, since trees built from documents may carry any text. -/
inductive Expr where
  | literal (value : Value)
  | identifier (name : String)
  | property (owner name : String)
  | call (function : String) (args : List Expr)
  | unary (op : String) (operand : Expr)
  | binary (op : String) (left right : Expr)
  | assignment (op : String) (target value : Expr)
  | temporal (op : TemporalOp) (operands : List Expr)
  | probability (event : Expr) (comparison : String) (threshold : Float)
  | create (entityType : String) (properties : List (String × Value))
  | remove (entityType instanceId : String)
  | sequence (parts : List Expr)
deriving Inhabited

namespace Expr

def tag : Expr → String
  | .literal _ => "literal"
  | .identifier _ => "identifier"
  | .property _ _ => "property_access"
  | .call _ _ => "function_call"
  | .unary _ _ => "unary"
  | .binary _ _ _ => "binary"
  | .assignment _ _ _ => "assignment"
  | .temporal _ _ => "temporal"
  | .probability _ _ _ => "probability"
  | .create _ _ => "create_entity"
  | .remove _ _ => "remove_entity"
  | .sequence _ => "modify_multiple"

def children : Expr → List Expr
  | .call _ args => args
  | .unary _ operand => [operand]
  | .binary _ left right => [left, right]
  | .assignment _ target value => [target, value]
  | .temporal _ operands => operands
  | .probability event _ _ => [event]
  | .sequence parts => parts
  | _ => []

mutual

/-- An expression and all below it, parents first and in the order of the fields. -/
def nodes : Expr → List Expr
  | .call function args => .call function args :: nodesOf args
  | .unary op operand => .unary op operand :: nodes operand
  | .binary op left right => .binary op left right :: (nodes left ++ nodes right)
  | .assignment op target value => .assignment op target value :: (nodes target ++ nodes value)
  | .temporal op operands => .temporal op operands :: nodesOf operands
  | .probability event comparison threshold =>
    .probability event comparison threshold :: nodes event
  | .sequence parts => .sequence parts :: nodesOf parts
  | e => [e]

def nodesOf : List Expr → List Expr
  | [] => []
  | e :: rest => nodes e ++ nodesOf rest

end

def isTemporal : Expr → Bool
  | .temporal _ _ => true
  | _ => false

def isProbability : Expr → Bool
  | .probability _ _ _ => true
  | _ => false

/-- A literal as source text. Texts stand between double quotes as they are. -/
def literalText : Value → String
  | .str s => "\"" ++ s ++ "\""
  | .bool b => if b then "true" else "false"
  | v => v.text

mutual

def render : Expr → String
  | .literal value => literalText value
  | .identifier name => name
  | .property owner name => owner ++ "." ++ name
  | .call function args => function ++ "(" ++ String.intercalate ", " (renderAll args) ++ ")"
  | .unary op operand => op ++ render operand
  | .binary op left right => "(" ++ render left ++ " " ++ op ++ " " ++ render right ++ ")"
  | .assignment op target value => render target ++ " " ++ op ++ " " ++ render value
  | .temporal op operands =>
    op.name ++ "(" ++ String.intercalate ", " (renderAll operands) ++ ")"
  | .probability event comparison threshold =>
    "P[" ++ render event ++ "] " ++ comparison ++ " " ++ floatTextGeneral threshold
  | .create entityType _ => "create_entity(" ++ entityType ++ ")"
  | .remove entityType instanceId => "remove_entity(" ++ entityType ++ ", " ++ instanceId ++ ")"
  | .sequence parts => String.intercalate "; " (renderAll parts)

def renderAll : List Expr → List String
  | [] => []
  | e :: rest => render e :: renderAll rest

end

end Expr

end StepWorld
