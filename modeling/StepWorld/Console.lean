import StepWorld.Table
import StepWorld.Text.Upper

/-! Lines for the console. Each kind of line has a colour and a mark, so that the kinds stay
apart when colours are off. The environment switches colours and details. -/

namespace StepWorld

abbrev Environment := Table String

inductive Color where
  | blue
  | yellow
  | red
  | green
  | cyan
  | bold
  | reset
deriving DecidableEq, Repr

namespace Color

def code : Color → String
  | .blue => "\x1b[94m"
  | .yellow => "\x1b[93m"
  | .red => "\x1b[91m"
  | .green => "\x1b[92m"
  | .cyan => "\x1b[96m"
  | .bold => "\x1b[1m"
  | .reset => "\x1b[0m"

end Color

namespace Environment

def value (env : Environment) (name : String) : String := (env.get? name).getD ""

def colorless (env : Environment) : Bool := env.value "GAMESPEC_NO_COLOR" != ""

def enabled (env : Environment) (name : String) : Bool :=
  ["1", "true", "yes"].contains ((env.value name).map Char.toLower)

def verbose (env : Environment) : Bool := env.enabled "GAMESPEC_VERBOSE"

/-- Whether the details of a part of the program are printed. The variable has its name in
upper case. -/
def debugs (env : Environment) (part : String) : Bool := env.enabled ("DEBUG_" ++ upperText part)

def colored (env : Environment) (text : String) (color : Color) (bold : Bool) : String :=
  if env.colorless then text
  else (if bold then Color.bold.code else "") ++ color.code ++ text ++ Color.reset.code

end Environment

inductive LineKind where
  | deterministic
  | random
  | error
  | success
  | info
deriving DecidableEq, Repr

namespace LineKind

def mark : LineKind → String
  | .deterministic => "[•]"
  | .random => "[?]"
  | .error => "[!]"
  | .success => "[✓]"
  | .info => "[i]"

def color : LineKind → Color
  | .deterministic => .blue
  | .random => .yellow
  | .error => .red
  | .success => .green
  | .info => .cyan

def line (kind : LineKind) (env : Environment) (message : String) : String :=
  env.colored (kind.mark ++ " " ++ message) kind.color false

end LineKind

end StepWorld
