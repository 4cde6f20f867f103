import StepWorld.Syntax.Declaration
import StepWorld.Text.Word

/-! The review of a source: what is wrong with it, what is doubtful and what could be added.
Checks on lines and braces come first and give plainer messages than reading would; the
source is read only if they find nothing. -/

namespace StepWorld

/-- A text that reading can refuse, or a flaw of what was read. -/
inductive Problem where
  | empty
  | noEntityWord
  | unbalancedBraces (opening closing : Nat)
  | missingBrace (line : Nat)
  | unclosedComment (line : Nat)
  | lexical (error : LexicalError)
  | structural (error : ParseError)
  | noEntities
  | duplicateEntity (name : String)
  | duplicateRule (name : String)

def Problem.message : Problem → String
  | .empty => "Empty specification"
  | .noEntityWord => "No Entity definitions found"
  | .unbalancedBraces opening closing =>
    "Unbalanced braces: " ++ toString opening ++ " opening vs " ++ toString closing ++ " closing"
  | .missingBrace line => "Line " ++ toString line ++ ": Entity definition missing opening brace"
  | .unclosedComment line => "Line " ++ toString line ++ ": Unclosed multi-line comment"
  | .lexical e => "Parse error: " ++ e.message
  | .structural e => "Parse error: " ++ e.message
  | .noEntities => "No valid entities found"
  | .duplicateEntity name => "Duplicate entity name: " ++ name
  | .duplicateRule name => "Duplicate rule name: " ++ name

/-- The message of a problem where a source is read in earnest, not reviewed. -/
def Problem.plainMessage : Problem → String
  | .lexical e => e.message
  | .structural e => e.message
  | p => p.message

inductive Caution where
  | noStateWord
  | noEventWord
  | undefinedTarget (event target : String)
  | skipped (run : SkippedRun)

def Caution.message : Caution → String
  | .noStateWord => "No State definitions found"
  | .noEventWord => "No Event definitions found"
  | .undefinedTarget event target => "Event " ++ event ++ " targets undefined entity: " ++ target
  | .skipped run => run.message

inductive Suggestion where
  | rules
  | temporal
  | probability

def Suggestion.message : Suggestion → String
  | .rules => "Consider adding rules for game flow control"
  | .temporal => "Consider adding temporal operators for time-based logic"
  | .probability => "Consider adding probability elements for random events"

structure Report where
  problems : List Problem
  cautions : List Caution
  suggestions : List Suggestion

def Report.valid (r : Report) : Bool := r.problems.isEmpty

def duplicatesAfter (seen found : List String) : List String → List String
  | [] => found
  | name :: rest =>
    duplicatesAfter (name :: seen)
      (if seen.contains name && !found.contains name then found ++ [name] else found) rest

def duplicates (names : List String) : List String := duplicatesAfter [] [] names

/-- The characters of a source outside comments and quotations. What is never closed counts
as plain text. -/
def exposed (text : List Char) : List Char :=
  match text with
  | [] => []
  | c :: rest =>
    if c = '/' ∧ rest.head? = some '/' then exposed (rest.dropWhile (· != '\n'))
    else if c = '/' ∧ rest.head? = some '*' then
      match _h : closeComment? rest.tail with
      | some (_, tail) => exposed tail
      | none => c :: exposed rest
    else if c = '"' ∨ c = '\'' then
      match _h : closeQuote? c rest with
      | some (_, tail) => exposed tail
      | none => c :: exposed rest
    else c :: exposed rest
termination_by text.length
decreasing_by
  · have := (List.dropWhile_sublist (· != '\n') (l := rest)).length_le
    simp only [List.length_cons]
    omega
  · have := congrArg List.length (closeComment?_append _h)
    simp only [List.length_append, List.length_tail, List.length_cons] at *
    omega
  · simp
  · have := congrArg List.length (closeQuote?_append _h)
    simp only [List.length_append, List.length_cons] at *
    omega
  · simp
  · simp

def openComment (number : Nat) : (opened : Option Nat) → List Char → Option Nat
  | some _, '*' :: '/' :: rest => openComment number none rest
  | none, '/' :: '*' :: rest => openComment number (some number) rest
  | none, '/' :: '/' :: _ => none
  | opened, _ :: rest => openComment number opened rest
  | opened, [] => opened

/-- Whether a line starts the definition of an entity without opening its body. -/
def isBareEntityLine (line : List Char) : Bool :=
  beginsWithWord "Entity".toList (trimStart line) && !line.contains '{'

/-- Whether the first line that is not blank begins with an opening brace. -/
def bodyFollows (following : List (List Char)) : Bool :=
  match following.find? fun line => !(trimStart line).isEmpty with
  | some line => (trimStart line).head? == some '{'
  | none => false

/-- Walks over lines from a number on and looks for bodies that are never opened and for a
comment that is never closed. -/
def lineProblems (number : Nat) (opened : Option Nat) : List (List Char) → List Problem
  | [] => opened.elim [] fun line => [.unclosedComment line]
  | line :: rest =>
    (if opened.isNone && isBareEntityLine line && !bodyFollows rest then [.missingBrace number]
      else []) ++
      lineProblems (number + 1) (openComment number opened line) rest

def braceProblems (text : List Char) : List Problem :=
  let plain := exposed text
  let opening := plain.count '{'
  let closing := plain.count '}'
  if opening = closing then [] else [.unbalancedBraces opening closing]

def Program.duplicateProblems (p : Program) : List Problem :=
  (duplicates (p.entities.map (·.name))).map .duplicateEntity ++
    (duplicates (p.rules.map (·.name))).map .duplicateRule

def Program.targetCautions (p : Program) : List Caution :=
  p.entities.flatMap fun entity => entity.events.filterMap fun event =>
    event.target.bind fun target =>
      if (p.entities.map (·.name)).contains target then none
      else some (.undefinedTarget event.name target)

def Program.suggestions (p : Program) : List Suggestion :=
  (if p.rules.isEmpty then [.rules] else []) ++
    (if p.hasTemporal then [] else [.temporal]) ++
    (if p.hasProbability then [] else [.probability])

def Program.report (p : Program) (cautions : List Caution) : Report where
  problems := (if p.entities.isEmpty then [.noEntities] else []) ++ p.duplicateProblems
  cautions := cautions ++ p.targetCautions ++ p.warnings.map .skipped
  suggestions := p.suggestions

/-- Reviews a source. The only thing that stops a review is a numeral that stands for no
number. -/
def review (source : String) : Except SourceError Report :=
  let text := source.toList
  if (trimStart text).isEmpty then .ok ⟨[.empty], [], []⟩
  else
    let mentions (word : String) := containsWord word.toList false text
    let cautions : List Caution :=
      (if mentions "State" then [] else [.noStateWord]) ++
        (if mentions "Event" then [] else [.noEventWord])
    let problems : List Problem :=
      (if mentions "Entity" then [] else [.noEntityWord]) ++ braceProblems text ++
        lineProblems 1 none (lines text)
    if !problems.isEmpty then .ok ⟨problems, cautions, []⟩
    else
      match readProgram source with
      | .ok program => .ok (program.report cautions)
      | .error (.lexical e) => .ok ⟨[.lexical e], cautions, []⟩
      | .error (.structural e) => .ok ⟨[.structural e], cautions, []⟩
      | .error (.numeral fault) => .error (.numeral fault)

end StepWorld
