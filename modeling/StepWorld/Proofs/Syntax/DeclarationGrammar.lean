import StepWorld.Proofs.Syntax.Precedence
import StepWorld.Syntax.Declaration

/-! The grammar of declarations over tokens. A definition is a keyword, a name and a row of
parts in braces; a program is a row of definitions. The strict grammar has nothing but parts in
a row. The lax one also has runs of tokens that fit nowhere, each reported once, by its first
token. -/

namespace StepWorld

variable {α : Type}

/-! ### Types and properties -/

/-- A whole number with an optional minus sign in front. -/
inductive DerivesInteger : List Token → List Token → Int → Prop
  | plain {t : Token} {rest : List Token} {n : Int} : t.kind = .number →
      numeralValue t.value = .whole n → DerivesInteger (t :: rest) rest n
  | negated {minus t : Token} {rest : List Token} {n : Int} : minus.isOperator "-" →
      t.kind = .number → numeralValue t.value = .whole n →
      DerivesInteger (minus :: t :: rest) rest (-n)

/-- The members of an enumeration, separated by commas, with the closing parenthesis. -/
inductive DerivesMembers : List Token → List Token → List String → Prop
  | last {member closing : Token} {rest : List Token} :
      member.kind = .string ∨ member.kind = .identifier → closing.isMark ')' →
      DerivesMembers (member :: closing :: rest) rest [member.value]
  | more {member comma : Token} {ts rest : List Token} {members : List String} :
      member.kind = .string ∨ member.kind = .identifier → comma.isMark ',' →
      DerivesMembers ts rest members →
      DerivesMembers (member :: comma :: ts) rest (member.value :: members)

inductive DerivesType : List Token → List Token → PropertyType → Prop
  | emptyEnum {name opening closing : Token} {rest : List Token} : name.isWord "Enum" →
      opening.isMark '(' → closing.isMark ')' →
      DerivesType (name :: opening :: closing :: rest) rest (.enum [])
  | enum {name opening : Token} {ts rest : List Token} {members : List String} :
      name.isWord "Enum" → opening.isMark '(' → DerivesMembers ts rest members →
      DerivesType (name :: opening :: ts) rest (.enum members)
  | intRange {name opening comma closing : Token} {ts mid rest : List Token} {min max : Int} :
      name.isWord "Int" → opening.isMark '[' → DerivesInteger ts (comma :: mid) min →
      comma.isMark ',' → DerivesInteger mid (closing :: rest) max → closing.isMark ']' →
      min ≤ max → DerivesType (name :: opening :: ts) rest (.intRange min max)
  | list {name opening element closing : Token} {rest : List Token} : name.isWord "List" →
      opening.isOperator "<" → element.kind = .identifier → closing.isOperator ">" →
      DerivesType (name :: opening :: element :: closing :: rest) rest (.list element.value)
  | scalar {name : Token} {rest : List Token} {type : ScalarType} : name.kind = .identifier →
      scalarType? name.value = some type → DerivesType (name :: rest) rest (.scalar type)

/-- Properties with the brace that closes their block. One separator may follow each. -/
inductive DerivesProperties : List Token → List Token → List PropertyDecl → Prop
  | close {closing : Token} {rest : List Token} : closing.isMark '}' →
      DerivesProperties (closing :: rest) rest []
  | property {name colon : Token} {ts mid rest : List Token} {type : PropertyType}
      {properties : List PropertyDecl} : name.kind = .identifier → colon.isMark ':' →
      DerivesType ts mid type → DerivesProperties mid rest properties →
      DerivesProperties (name :: colon :: ts) rest (⟨name.value, type⟩ :: properties)
  | separated {name colon separator : Token} {ts mid rest : List Token} {type : PropertyType}
      {properties : List PropertyDecl} : name.kind = .identifier → colon.isMark ':' →
      DerivesType ts (separator :: mid) type → separator.isMark ';' ∨ separator.isMark ',' →
      DerivesProperties mid rest properties →
      DerivesProperties (name :: colon :: ts) rest (⟨name.value, type⟩ :: properties)

/-! ### Rows -/

def Body.append (first second : Body α) : Body α :=
  ⟨first.items ++ second.items, first.skipped ++ second.skipped⟩

/-- The tokens from a list to what is left of it fit nowhere, and the next one fits. -/
inductive Misfits (fits : List Token → Bool) : List Token → List Token → Prop
  | done {ts : List Token} : fits ts = true → Misfits fits ts ts
  | more {t : Token} {ts rest : List Token} : fits (t :: ts) = false → Misfits fits ts rest →
      Misfits fits (t :: ts) rest

/-- A row of parts. If it is lax, there may be runs of tokens that fit nowhere; a run is as long
as it can be, and its first token is reported. -/
inductive DerivesRow (lax : Bool) (place : Surroundings) (fits : List Token → Bool)
    (Part : List Token → List Token → Body α → Prop) : List Token → List Token → Body α → Prop
  | nil {ts : List Token} : DerivesRow lax place fits Part ts ts .empty
  | part {ts mid rest : List Token} {part body : Body α} : Part ts mid part →
      DerivesRow lax place fits Part mid rest body →
      DerivesRow lax place fits Part ts rest (part.append body)
  | run {t : Token} {ts mid rest : List Token} {body : Body α} : lax = true →
      fits (t :: ts) = false → Misfits fits ts mid →
      DerivesRow lax place fits Part mid rest body →
      DerivesRow lax place fits Part (t :: ts) rest (body.after [⟨t, place⟩])

/-- A token fits in a body that closes, or goes on with a semicolon or the beginning of a part. -/
def fitsIn (begins : Token → List Token → Bool) : List Token → Bool
  | [] => true
  | t :: rest => t.isMark '}' || t.isMark ';' || begins t rest

/-- A definition: its keyword, its name and a row of parts in braces. -/
inductive DerivesBlock (lax : Bool) (word : String) (place : String → Surroundings)
    (begins : Token → List Token → Bool) (Part : List Token → List Token → Body α → Prop) :
    List Token → List Token → Token → String → Body α → Prop
  | block {keyword name opening closing : Token} {ts rest : List Token} {body : Body α} :
      keyword.isWord word → name.kind = .identifier → opening.isMark '{' →
      DerivesRow lax (place name.value) (fitsIn begins) Part ts (closing :: rest) body →
      closing.isMark '}' →
      DerivesBlock lax word place begins Part (keyword :: name :: opening :: ts) rest keyword
        name.value body

/-- A clause, or a semicolon after a clause or anywhere else. -/
inductive DerivesPart (Clause : List Token → List Token → α → Prop) :
    List Token → List Token → Body α → Prop
  | semicolon {t : Token} {rest : List Token} : t.isMark ';' →
      DerivesPart Clause (t :: rest) rest .empty
  | clause {ts rest : List Token} {clause : α} : Clause ts rest clause →
      DerivesPart Clause ts rest ⟨[clause], []⟩

/-! ### Clauses -/

/-- A keyword, a colon and an expression. Where tokens can be passed over, the expression still
goes on as long as operators follow. -/
inductive DerivesExprClause (lax : Bool) (word : String) : List Token → List Token → Expr → Prop
  | clause {keyword colon : Token} {ts rest : List Token} {e : Expr} : keyword.isWord word →
      colon.isMark ':' → Derives .assignment ts rest e → (lax = true → Stops 0 rest) →
      DerivesExprClause lax word (keyword :: colon :: ts) rest e

inductive DerivesEventClause (lax : Bool) : List Token → List Token → EventClause → Prop
  | condition {ts rest : List Token} {e : Expr} : DerivesExprClause lax "requires" ts rest e →
      DerivesEventClause lax ts rest (.condition e)
  | target {keyword colon name : Token} {rest : List Token} : keyword.isWord "target" →
      colon.isMark ':' → name.kind = .identifier →
      DerivesEventClause lax (keyword :: colon :: name :: rest) rest (.target name.value)
  | effect {ts rest : List Token} {e : Expr} : DerivesExprClause lax "effect" ts rest e →
      DerivesEventClause lax ts rest (.effect e)
  | weighted {name opening closing equals : Token} {ts mid rest : List Token} {e : Expr}
      {x : Float} : name.isWord "P" → opening.isMark '[' →
      Derives .assignment ts (closing :: equals :: mid) e → closing.isMark ']' →
      equals.isOperator "=" → DerivesThreshold mid rest x →
      DerivesEventClause lax (name :: opening :: ts) rest (.weighted ⟨e, x⟩)

/-- Temporal and probability clauses are the expressions that begin with a name and come to such
an operator. -/
inductive DerivesRuleClause (lax : Bool) : List Token → List Token → RuleClause → Prop
  | condition {ts rest : List Token} {e : Expr} : DerivesExprClause lax "when" ts rest e →
      DerivesRuleClause lax ts rest (.condition e)
  | effect {ts rest : List Token} {e : Expr} : DerivesExprClause lax "effect" ts rest e →
      DerivesRuleClause lax ts rest (.effect e)
  | temporal {name : Token} {ts rest : List Token} {clause : TemporalClause} :
      name.kind = .identifier → Derives .operand (name :: ts) rest clause.toExpr →
      DerivesRuleClause lax (name :: ts) rest (.temporal clause)
  | probability {name : Token} {ts rest : List Token} {clause : ProbabilityClause} :
      name.kind = .identifier → Derives .operand (name :: ts) rest clause.toExpr →
      DerivesRuleClause lax (name :: ts) rest (.probability clause)

def beginsEventClause (t : Token) (rest : List Token) : Bool :=
  ["requires", "target", "effect"].any (t.opensClause · rest) ||
    t.isWord "P" && startsWithMark '[' rest

def beginsRuleClause (t : Token) (rest : List Token) : Bool :=
  ["when", "effect"].any (t.opensClause · rest) ||
    t.kind == .identifier && (temporalStart? t.value rest).isSome ||
    t.isWord "P" && startsWithMark '[' rest

/-! ### Definitions -/

inductive DerivesEntityPart (lax : Bool) : List Token → List Token → Body EntityClause → Prop
  | semicolon {t : Token} {rest : List Token} : t.isMark ';' →
      DerivesEntityPart lax (t :: rest) rest .empty
  | state {keyword opening : Token} {ts rest : List Token} {properties : List PropertyDecl} :
      keyword.isWord "State" → opening.isMark '{' → DerivesProperties ts rest properties →
      DerivesEntityPart lax (keyword :: opening :: ts) rest ⟨[.state properties], []⟩
  | event {keyword : Token} {ts rest : List Token} {name : String} {body : Body EventClause} :
      DerivesBlock lax "Event" .event beginsEventClause (DerivesPart (DerivesEventClause lax))
        ts rest keyword name body →
      DerivesEntityPart lax ts rest ⟨[.event (.ofClauses name body.items)], body.skipped⟩

def beginsEntityPart (t : Token) (_ : List Token) : Bool := t.isWord "State" || t.isWord "Event"

inductive DerivesDeclaration (lax : Bool) : List Token → List Token → Body Declaration → Prop
  | entity {keyword : Token} {ts rest : List Token} {name : String} {body : Body EntityClause} :
      DerivesBlock lax "Entity" .entity beginsEntityPart (DerivesEntityPart lax)
        ts rest keyword name body →
      DerivesDeclaration lax ts rest
        ⟨[.entity (.ofClauses name keyword.position.line body.items)], body.skipped⟩
  | rule {keyword : Token} {ts rest : List Token} {name : String} {body : Body RuleClause} :
      DerivesBlock lax "Rule" .rule beginsRuleClause (DerivesPart (DerivesRuleClause lax))
        ts rest keyword name body →
      DerivesDeclaration lax ts rest ⟨[.rule (.ofClauses name body.items)], body.skipped⟩

def fitsInSpecification : List Token → Bool
  | [] => true
  | t :: _ => t.isWord "Entity" || t.isWord "Rule"

/-- A whole token list makes up a program, with what is reported in it. -/
inductive DerivesProgram (lax : Bool) (tokens : List Token) : Program → Prop
  | program {body : Body Declaration} :
      DerivesRow lax .specification fitsInSpecification (DerivesDeclaration lax) tokens [] body →
      DerivesProgram lax tokens (.ofDeclarations body)

end StepWorld
