import StepWorld.Document.Json
import StepWorld.Folder
import StepWorld.Options
import StepWorld.Settings

/-! Scenarios: JSON files that pair the source of a specification with the options of one
simulation. The source stands in the file or in a file next to it. -/

namespace StepWorld

def plainLineEnds : List Char → List Char
  | '\r' :: '\n' :: rest => '\n' :: plainLineEnds rest
  | '\r' :: rest => '\n' :: plainLineEnds rest
  | c :: rest => c :: plainLineEnds rest
  | [] => []

def plainText (text : String) : String := String.ofList (plainLineEnds text.toList)

inductive ScenarioError where
  | notFound (name : String) (direct nested : Path)
  | sourceNotFound (name : String) (path : Path)
  | file (cause : FileCause)
  | notJson
  | number (fault : Fault)
  | missingFields (names : List String)
  | noSource
  | notSearchable
  | notIndexable
  | noEntries
  | badOptions (issues : List Issue)

/-- A path below the root as messages show it; `root` stands for the root. -/
def shownPath (root : String) (p : Path) : String :=
  if p.slashes = 0 then
    if p.segments.isEmpty then root else root ++ "/" ++ p.toString
  else p.toString

def ScenarioError.message (root : String) : ScenarioError → String
  | .notFound name direct nested =>
    "Scenario '" ++ name ++ "' not found at " ++ shownPath root direct ++ " or " ++
      shownPath root nested
  | .sourceNotFound name path =>
    "Scenario '" ++ name ++ "' source file not found at " ++ shownPath root path
  | .missingFields names =>
    "Scenario missing required fields: " ++ (Value.ofItems (names.map .str)).text
  | .noSource => "Scenario must include either 'source' or 'source_file'"
  | .number fault => fault.message
  | _ => ""

structure Scenario where
  name : Option String
  description : Option String
  source : Value
  options : SimulationOptions
  path : Path

/-- What is known of a scenario without its source; entries are kept as they are. -/
structure ScenarioInfo where
  name : Value
  description : Value
  maxSteps : Value
  stepInterval : Value

structure ScenarioShelf where
  folder : Folder String
  directory : Path

namespace ScenarioShelf

variable (shelf : ScenarioShelf)

def answer {α : Type} : Except FileCause α → Except ScenarioError α
  | .ok x => .ok x
  | .error cause => .error (.file cause)

/-- The file of a scenario: its own or the one in the directory of its name. -/
def resolve (name : String) : Except ScenarioError Path := do
  let direct := shelf.directory.join (.ofString (name ++ ".json"))
  let nested := (shelf.directory.join (.ofString name)).child "scenario.json"
  if ← answer (shelf.folder.entry direct).found then return direct
  else if ← answer (shelf.folder.entry nested).found then return nested
  else throw (.notFound name direct nested)

def readFile (path : Path) : Except ScenarioError String := do
  return plainText (← answer (shelf.folder.content path))

def readData (path : Path) : Except ScenarioError Value := do
  match Json.read (← shelf.readFile path) with
  | .ok data => return data
  | .error .malformed => throw .notJson
  | .error (.longInteger digits) => throw (.number (.longNumeral digits))

def occursIn (word : List Char) : List Char → Bool
  | [] => word.isEmpty
  | c :: rest => word.isPrefixOf (c :: rest) || occursIn word rest

/-- Whether data mentions a name: as a key, as an item or inside a text. -/
def mentions (data : Value) (name : String) : Except ScenarioError Bool :=
  match data with
  | .map fields => .ok (Table.has name fields)
  | .list _ items => .ok (items.any fun v => v.same (.str name))
  | .str s | .torn s => .ok (occursIn name.toList s.toList)
  | _ => .error .notSearchable

def validate (data : Value) : Except ScenarioError Unit := do
  let missing ← ["name", "description"].filterM fun name => do return !(← mentions data name)
  if !missing.isEmpty then .error (.missingFields missing)
  else if !(← mentions data "source") && !(← mentions data "source_file") then .error .noSource

def sourceOf (name : String) (path : Path) (fields : Record) : Except ScenarioError Value :=
  match fields.get? "source" with
  | some source => .ok source
  | none =>
    match fields.get? "source_file" with
    | some (.str file) | some (.torn file) => do
      let place := path.parent.join (.ofString file)
      if ← answer (shelf.folder.entry place).found then return .str (← shelf.readFile place)
      else throw (.sourceNotFound name place)
    | _ => .error .notIndexable

def checked {α : Type} : Checked α → Except ScenarioError α
  | .ok a => .ok a
  | .error issues => .error (.badOptions issues)

/-- The initial state in a scenario's fields; anything false or empty stands for none. -/
def initialStateOf (fields : Record) : Except ScenarioError Value :=
  match fields.get? "initial_state" with
  | none => .ok .null
  | some data =>
    if !data.truth then .ok .null
    else
      match data with
      | .map _ => do
        let _ ← checked (Reader.initialState [] data)
        return data
      | _ => .error .noEntries

def optionsOf (fields : Record) : Except ScenarioError SimulationOptions := do
  let entry (name : String) := (fields.get? name).getD .null
  let initialState ← initialStateOf fields
  checked (Reader.simulationOptions []
    (.map [("name", entry "name"), ("description", entry "description"),
      ("max_steps", entry "max_steps"), ("step_interval", entry "step_interval"),
      ("initial_state", initialState)]))

def load (name : String) : Except ScenarioError Scenario := do
  let path ← shelf.resolve name
  let data ← shelf.readData path
  validate data
  match data with
  | .map fields =>
    let source ← shelf.sourceOf name path fields
    let options ← optionsOf fields
    return ⟨options.name, options.description, source, options, path⟩
  | _ => .error .notIndexable

def info (name : String) : Except ScenarioError ScenarioInfo := do
  let path ← shelf.resolve name
  match ← shelf.readData path with
  | .map fields =>
    let entry (name : String) (default : Value) := (Table.get? name fields).getD default
    return ⟨entry "name" (.str name), entry "description" (.str "No description"),
      entry "max_steps" (.int Settings.default.maxSteps),
      entry "step_interval" (.float Settings.default.stepInterval)⟩
  | _ => .error .noEntries

/-- The name of a file without `.json`; a file of that name alone keeps it. -/
def stem? (file : String) : Option String :=
  let chars := file.toList
  if ".json".toList.isSuffixOf chars then
    some (if chars.length = 5 then file else String.ofList (chars.take (chars.length - 5)))
  else none

def holdsScenario (name : String) : Bool :=
  match (shelf.folder.entry ((shelf.directory.child name).child "scenario.json")).found with
  | .ok found => found
  | .error _ => false

/-- The names of all scenarios in order. Files that begin with an underscore are hidden. -/
def list : Except ScenarioError (List String) :=
  match shelf.folder.find shelf.directory with
  | (place, .directory) =>
    let names := shelf.folder.names place
    let files := names.filterMap fun name =>
      if name.startsWith "_" then none else stem? name
    let nested := names.filter shelf.holdsScenario
    .ok ((files ++ nested).mergeSort fun a b => decide (a ≤ b))
  | (_, .overlong) => .error (.file .overlong)
  | _ => .ok []

end ScenarioShelf

end StepWorld
