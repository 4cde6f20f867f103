import StepWorld.Syntax.Scan

/-! Tokens of a source. Every piece knows where it starts; gaps yield no token, a run of
operator characters yields one for each operator in it, all else yields one. -/

namespace StepWorld

/-- Why and where a source cannot be cut into tokens. -/
structure LexicalError where
  cause : LexicalCause
  char : Char
  position : Position
deriving DecidableEq, Repr

def Position.message (p : Position) : String :=
  " at line " ++ toString p.line ++ ", column " ++ toString p.column

def LexicalError.message (e : LexicalError) : String :=
  let detail := match e.cause with
    | .unexpectedCharacter => "Unexpected character " ++ quoted (String.singleton e.char)
    | .unterminatedString => "Unterminated string literal"
    | .unclosedComment => "Unclosed multi-line comment"
  detail ++ e.position.message

def longestOperator? (run : List Char) : Option (List Char) :=
  (knownOperators.map String.toList).find? (·.isPrefixOf run)

/-- A run cut into operators, the longest first each time. A tail that begins with no known
operator stays whole. -/
def splitRun : List Char → List (List Char)
  | [] => []
  | c :: rest =>
    match longestOperator? (c :: rest) with
    | some op => op :: splitRun (rest.drop (op.length - 1))
    | none => [c :: rest]
termination_by run => run.length
decreasing_by simp only [List.length_drop, List.length_cons]; omega

def operatorTokens (place : Position) : List (List Char) → List Token
  | [] => []
  | op :: rest => ⟨.operator, String.ofList op, place⟩ :: operatorTokens (place.after op) rest

def Piece.tokens (place : Position) : Piece → List Token
  | .blank _ | .lineComment _ | .blockComment _ => []
  | .word text => [⟨.identifier, String.ofList text, place⟩]
  | .numeral text => [⟨.number, String.ofList text, place⟩]
  | .quotation _ body => [⟨.string, String.ofList body, place⟩]
  | .operators run => operatorTokens place (splitRun run)
  | .mark c => [⟨.punctuation, String.singleton c, place⟩]

def tokensFrom (place : Position) : List Char → Except LexicalError (List Token)
  | [] => .ok []
  | c :: rest =>
    match _h : nextPiece c rest with
    | .error cause => .error ⟨cause, c, place⟩
    | .ok (piece, tail) => do
      let tokens ← tokensFrom (place.after piece.text) tail
      return piece.tokens place ++ tokens
termination_by text => text.length
decreasing_by exact nextPiece_shorter _h

def tokenize (source : String) : Except LexicalError (List Token) :=
  tokensFrom .start source.toList

end StepWorld
