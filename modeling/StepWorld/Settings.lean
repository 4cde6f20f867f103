import StepWorld.Console
import StepWorld.Number.Layout
import StepWorld.Number.Parsing
import StepWorld.Path
import StepWorld.Text.Quoted

/-! Settings taken from the environment, with defaults for what it leaves open. -/

namespace StepWorld

structure Settings where
  maxSteps : Int
  stepInterval : Float
  historyLimit : Int
  seed : Option Int
  runsDirectory : Path

inductive SettingsError where
  | notInt (text : String)
  | longInt (digits : Nat)
  | notFloat (text : String)
  | negativeSteps (n : Int)
  | negativeInterval (x : Float)
  | emptyHistory (n : Int)

def SettingsError.message : SettingsError → String
  | .notInt text => notIntMessage text
  | .longInt digits => (Fault.longNumeral digits).message
  | .notFloat text => "could not convert string to float: " ++ quoted text
  | .negativeSteps n =>
    "GAMESPEC_MAX_STEPS must be zero or positive (got " ++ toString n ++ ")"
  | .negativeInterval x =>
    "GAMESPEC_STEP_INTERVAL must be zero or positive seconds (got " ++ floatText x ++ ")"
  | .emptyHistory n =>
    "GAMESPEC_HISTORY_LIMIT must keep at least one snapshot (got " ++ toString n ++ ")"

namespace Settings

def default : Settings := ⟨100, 1, 1000, none, ⟨0, ["simulation_runs"]⟩⟩

def int (text : String) : Except SettingsError Int :=
  match readInt text with
  | .ok n => .ok n
  | .error .notInt => .error (.notInt text)
  | .error (.tooLong digits) => .error (.longInt digits)

def float (text : String) : Except SettingsError Float :=
  match readFloat? text with
  | some x => .ok x
  | none => .error (.notFloat text)

def setting {α : Type} (env : Environment) (name : String) (default : α)
    (read : String → Except SettingsError α) : Except SettingsError α :=
  match env.get? name with
  | some text => read text
  | none => .ok default

/-- A seed; blank text stands for none. -/
def seedOf (text : String) : Except SettingsError (Option Int) :=
  if (trim text.toList).isEmpty then .ok none else some <$> int text

def ofEnvironment (env : Environment) : Except SettingsError Settings := do
  let maxSteps ← setting env "GAMESPEC_MAX_STEPS" default.maxSteps int
  let stepInterval ← setting env "GAMESPEC_STEP_INTERVAL" default.stepInterval float
  let historyLimit ← setting env "GAMESPEC_HISTORY_LIMIT" default.historyLimit int
  let seed ← setting env "GAMESPEC_SEED" none seedOf
  let runsDirectory ←
    setting env "GAMESPEC_RUNS_DIR" default.runsDirectory fun text => .ok (.ofString text)
  return ⟨maxSteps, stepInterval, historyLimit, seed, runsDirectory⟩

def validate (s : Settings) : Except SettingsError Unit :=
  if s.maxSteps < 0 then .error (.negativeSteps s.maxSteps)
  else if s.stepInterval < 0 then .error (.negativeInterval s.stepInterval)
  else if s.historyLimit < 1 then .error (.emptyHistory s.historyLimit)
  else .ok ()

def display (s : Settings) : String :=
  String.intercalate "\n"
    ["gamespec Configuration:",
      "  Default Max Steps: " ++ toString s.maxSteps,
      "  Step Interval: " ++ floatText s.stepInterval ++ "s",
      "  History Limit: " ++ toString s.historyLimit,
      "  Seed: " ++ (s.seed.elim "random" toString),
      "  Runs Directory: " ++ s.runsDirectory.toString]

end Settings

end StepWorld
