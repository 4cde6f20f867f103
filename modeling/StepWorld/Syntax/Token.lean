import StepWorld.Text.Quoted

/-! Tokens, their positions, and the tables of operators that reading tokens and reading
expressions agree on. -/

namespace StepWorld

inductive TokenKind where
  | identifier
  | number
  | string
  | operator
  | punctuation
deriving DecidableEq, Repr

def TokenKind.name : TokenKind → String
  | .identifier => "identifier"
  | .number => "number"
  | .string => "string"
  | .operator => "operator"
  | .punctuation => "punctuation"

/-- A place in a source; both numbers count from 1, columns in code points. -/
structure Position where
  line : Nat
  column : Nat
deriving DecidableEq, Repr

namespace Position

def start : Position := ⟨1, 1⟩

def next (p : Position) (c : Char) : Position :=
  if c = '\n' then ⟨p.line + 1, 1⟩ else ⟨p.line, p.column + 1⟩

def after (p : Position) (text : List Char) : Position := text.foldl next p

theorem after_append (p : Position) (a b : List Char) :
    p.after (a ++ b) = (p.after a).after b := List.foldl_append

end Position

/-- A lexical unit. The value of a string is its text without the quotes. -/
structure Token where
  kind : TokenKind
  value : String
  position : Position
deriving DecidableEq, Repr

def Token.describe (t : Token) : String := t.kind.name ++ " " ++ quoted t.value

def knownOperators : List String :=
  ["->", "==", "!=", "<=", ">=", "+=", "-=", "*=", "/=", "&&", "||",
    "+", "-", "*", "/", "%", "=", "<", ">", "!", "∧", "∨", "¬"]

def assignmentOperators : List String := ["=", "+=", "-=", "*=", "/="]

def comparisonOperators : List String := ["==", "!=", "<", "<=", ">", ">="]

/-- The glyph of a logical connective; any other operator stands for itself. -/
def connectiveGlyph : String → String
  | "&&" => "∧"
  | "||" => "∨"
  | "!" => "¬"
  | op => op

/-- How tightly a binary operator binds; assignment is looser than all of them. -/
def bindingPower? : String → Option Nat
  | "->" => some 20
  | "∨" | "||" => some 30
  | "∧" | "&&" => some 40
  | "==" | "!=" | "<" | "<=" | ">" | ">=" => some 50
  | "+" | "-" => some 60
  | "*" | "/" | "%" => some 70
  | _ => none

def assignmentPower : Nat := 10

def leadingPower : Nat := 80

def leadingOperators : List String := ["!", "¬", "-"]

def terminalFlags : List String := ["GameOver", "LevelComplete"]

end StepWorld
