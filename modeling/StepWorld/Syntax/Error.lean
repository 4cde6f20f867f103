import StepWorld.Number.Fault
import StepWorld.Number.Layout
import StepWorld.Syntax.Tokenize

/-! Why a source is refused: what was expected, what stood there instead, and where. -/

namespace StepWorld

inductive Expectation where
  | expression
  | endOfExpression
  | endOfInput
  | keyword (word : String)
  | mark (c : Char)
  | operator (op : String)
  | number
  | integer
  | typeName
  | maximumFrom (minimum : Int)
  /-- A name in some role, such as an event name. -/
  | name (role : String)
deriving DecidableEq, Repr

def Expectation.text : Expectation → String
  | .expression => "expression"
  | .endOfExpression => "end of expression"
  | .endOfInput => "end of input"
  | .keyword word => "'" ++ word ++ "'"
  | .mark c => "'" ++ String.singleton c ++ "'"
  | .operator op => "'" ++ op ++ "'"
  | .number => "number"
  | .integer => "integer"
  | .typeName => "type name (int, float, bool, string, Enum(...), Int[min,max], List<T>)"
  | .maximumFrom minimum => "range maximum >= " ++ toString minimum
  | .name role => role

inductive Found where
  | endOfInput
  | token (token : Token)
  | fraction (x : Float)

def Found.text : Found → String
  | .endOfInput => "end of input"
  | .token t => t.describe
  | .fraction x => "number " ++ floatText x

structure ParseError where
  expected : Expectation
  found : Found
  position : Position

def ParseError.message (e : ParseError) : String :=
  "Expected " ++ e.expected.text ++ " but found " ++ e.found.text ++ e.position.message

/-- Everything that can be wrong with a source. A numeral may have too many digits, and a
weight or threshold written as an integer may lie beyond the range of floats. -/
inductive SourceError where
  | lexical (error : LexicalError)
  | structural (error : ParseError)
  | numeral (fault : Fault)

/-- Where a token list ends: right after the value of its last token. -/
def endPosition (tokens : List Token) : Position :=
  match tokens.getLast? with
  | none => .start
  | some last => ⟨last.position.line, last.position.column + last.value.length⟩

/-- The error of finding something else at the front of the remaining tokens; `finish` is
where the whole list ends. -/
def unexpected (finish : Position) (expected : Expectation) : List Token → ParseError
  | [] => ⟨expected, .endOfInput, finish⟩
  | t :: _ => ⟨expected, .token t, t.position⟩

end StepWorld
