import StepWorld.Document.Check
import StepWorld.Expr

/-! Expressions as documents: maps that carry the tag of the expression under `kind` and one
entry for each of its fields. Documents may also write the tag under `type`. -/

namespace StepWorld

namespace Expr

mutual

def toDocument : Expr → Value
  | .literal value => .map [("kind", .str "literal"), ("value", value)]
  | .identifier name => .map [("kind", .str "identifier"), ("name", .str name)]
  | .property owner name =>
    .map [("kind", .str "property_access"), ("owner", .str owner), ("name", .str name)]
  | .call function args =>
    .map [("kind", .str "function_call"), ("name", .str function),
      ("args", .ofItems (toDocuments args))]
  | .unary op operand =>
    .map [("kind", .str "unary"), ("op", .str op), ("operand", toDocument operand)]
  | .binary op left right =>
    .map [("kind", .str "binary"), ("op", .str op), ("left", toDocument left),
      ("right", toDocument right)]
  | .assignment op target value =>
    .map [("kind", .str "assignment"), ("op", .str op), ("target", toDocument target),
      ("value", toDocument value)]
  | .temporal op operands =>
    .map [("kind", .str "temporal"), ("operator", .str op.name),
      ("operands", .ofItems (toDocuments operands))]
  | .probability event comparison threshold =>
    .map [("kind", .str "probability"), ("expression", toDocument event),
      ("comparison", .str comparison), ("threshold", .float threshold)]
  | .create entityType properties =>
    .map [("kind", .str "create_entity"), ("entity_type", .str entityType),
      ("properties", .map properties)]
  | .remove entityType instanceId =>
    .map [("kind", .str "remove_entity"), ("entity_type", .str entityType),
      ("instance_id", .str instanceId)]
  | .sequence parts =>
    .map [("kind", .str "modify_multiple"), ("modifications", .ofItems (toDocuments parts))]

def toDocuments : List Expr → List Value
  | [] => []
  | e :: rest => toDocument e :: toDocuments rest

end

end Expr

/-- Moves the entry `type` to the end under the name `kind`, in a map that has none. -/
def retag (fields : Record) : Record :=
  if fields.has "kind" then fields
  else
    match fields.get? "type" with
    | some tag => fields.remove "type" ++ [("kind", tag)]
    | none => fields

mutual

def Value.retagged : Value → Value
  | .list origin items => .list origin (retaggedItems items)
  | .map fields => .map (retag (retaggedFields fields))
  | v => v

def retaggedItems : List Value → List Value
  | [] => []
  | v :: rest => v.retagged :: retaggedItems rest

def retaggedFields : List (String × Value) → List (String × Value)
  | [] => []
  | (k, v) :: rest => (k, v.retagged) :: retaggedFields rest

end

/-- The ways in which the value of a field may be read inside an expression. -/
structure FieldReading where
  value : Value
  asExpr : List String → Checked Expr
  asExprs : List String → Checked (List Expr)

namespace FieldReading

def plain {α : Type} (read : Reader α) (path : List String) (field : FieldReading) : Checked α :=
  read path field.value

def expr (path : List String) (field : FieldReading) : Checked Expr := field.asExpr path

def exprs (path : List String) (field : FieldReading) : Checked (List Expr) := field.asExprs path

end FieldReading

def temporalOp : Reader TemporalOp
  | path, .str s =>
    match TemporalOp.ofName? s with
    | some op => .ok op
    | none => Checked.fail path .notLiteral
  | path, _ => Checked.fail path .notLiteral

/-- Builds the expression of a tag from its fields; nothing if the tag is unknown. -/
def exprOfFields? (tag : String) (path : List String) (fields : Table FieldReading) :
    Option (Checked Expr) :=
  let text (name : String) := requiredField name path fields (FieldReading.plain Reader.string)
  let expr (name : String) := requiredField name path fields FieldReading.expr
  let exprs (name : String) := optionalField name [] path fields FieldReading.exprs
  match tag with
  | "literal" =>
    some (Expr.literal <$> optionalField "value" .null path fields (FieldReading.plain Reader.any))
  | "identifier" => some (Expr.identifier <$> text "name")
  | "property_access" => some (Checked.both Expr.property (text "owner") (text "name"))
  | "function_call" => some (Checked.both Expr.call (text "name") (exprs "args"))
  | "unary" => some (Checked.both Expr.unary (text "op") (expr "operand"))
  | "binary" =>
    some (Checked.ap (Checked.both Expr.binary (text "op") (expr "left")) (expr "right"))
  | "assignment" =>
    some (Checked.ap (Checked.both Expr.assignment (text "op") (expr "target")) (expr "value"))
  | "temporal" =>
    some (Checked.both Expr.temporal
      (requiredField "operator" path fields (FieldReading.plain temporalOp)) (exprs "operands"))
  | "probability" =>
    some (Checked.ap (Checked.both Expr.probability (expr "expression")
        (optionalField "comparison" "=" path fields (FieldReading.plain Reader.string)))
      (optionalField "threshold" 0 path fields (FieldReading.plain Reader.float)))
  | "create_entity" =>
    some (Checked.both Expr.create (text "entity_type")
      (optionalField "properties" [] path fields (FieldReading.plain Reader.fields)))
  | "remove_entity" => some (Checked.both Expr.remove (text "entity_type") (text "instance_id"))
  | "modify_multiple" => some (Expr.sequence <$> exprs "modifications")
  | _ => none

/-- Builds an expression from the fields of a map. The tag becomes part of the path. -/
def exprOfRecord (path : List String) (fields : Table FieldReading) : Checked Expr :=
  match fields.get? "kind" with
  | none => Checked.fail path .noTag
  | some tag =>
    match tag.value with
    | .str tag => (exprOfFields? tag (path ++ [tag]) fields).getD (Checked.fail path .badTag)
    | _ => Checked.fail path .badTag

mutual

def Value.asExpr : Value → List String → Checked Expr
  | .map fields => fun path => exprOfRecord path (fieldReadings fields)
  | _ => fun path => Checked.fail path .notNode

def Value.asExprs : Value → List String → Checked (List Expr)
  | .list _ items => fun path => Checked.items (fun p read => read p) path 0 (itemReadings items)
  | _ => fun path => Checked.fail path .notList

def itemReadings : List Value → List (List String → Checked Expr)
  | [] => []
  | v :: rest => v.asExpr :: itemReadings rest

def fieldReadings : List (String × Value) → Table FieldReading
  | [] => []
  | (k, v) :: rest => (k, ⟨v, v.asExpr, v.asExprs⟩) :: fieldReadings rest

end

def Expr.ofDocument (document : Value) : Checked Expr := document.retagged.asExpr []

end StepWorld
