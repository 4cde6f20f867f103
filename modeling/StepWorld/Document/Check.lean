import StepWorld.Value

/-! Reading typed data out of free-form values. Every defect is reported with its path, in
the order of the fields; numbers and truth values are also accepted in their usual
spellings. -/

namespace StepWorld

inductive Defect where
  | missing
  | notString
  | badString
  | notList
  | notMap
  | notRecord
  | notNode
  | notInt
  | badInt
  | fractionalInt
  | hugeInt
  | infiniteInt
  | notFloat
  | badFloat
  | notBool
  | badBool
  | notMember
  | notLiteral
  | tooSmall
  | noTag
  | badTag
deriving DecidableEq, Repr

def Defect.code : Defect → String
  | .missing => "missing"
  | .notString => "string_type"
  | .badString => "string_unicode"
  | .notList => "list_type"
  | .notMap => "dict_type"
  | .notRecord => "model_type"
  | .notNode => "model_attributes_type"
  | .notInt => "int_type"
  | .badInt => "int_parsing"
  | .fractionalInt => "int_from_float"
  | .hugeInt => "int_parsing_size"
  | .infiniteInt => "finite_number"
  | .notFloat => "float_type"
  | .badFloat => "float_parsing"
  | .notBool => "bool_type"
  | .badBool => "bool_parsing"
  | .notMember => "enum"
  | .notLiteral => "literal_error"
  | .tooSmall => "greater_than_equal"
  | .noTag => "union_tag_not_found"
  | .badTag => "union_tag_invalid"

structure Issue where
  path : List String
  defect : Defect
deriving DecidableEq, Repr

abbrev Checked (α : Type) := Except (List Issue) α

abbrev Reader (α : Type) := List String → Value → Checked α

namespace Checked

variable {α β γ : Type}

def fail (path : List String) (defect : Defect) : Checked α := .error [⟨path, defect⟩]

def both (f : α → β → γ) : Checked α → Checked β → Checked γ
  | .ok a, .ok b => .ok (f a b)
  | .ok _, .error es => .error es
  | .error es, .ok _ => .error es
  | .error es, .error es' => .error (es ++ es')

def ap (f : Checked (α → β)) (a : Checked α) : Checked β := both (fun f a => f a) f a

def items (read : List String → α → Checked β) (path : List String) (n : Nat) :
    List α → Checked (List β)
  | [] => .ok []
  | x :: rest => both (· :: ·) (read (path ++ [toString n]) x) (items read path (n + 1) rest)

def entries (read : List String → α → Checked β) (path : List String) :
    List (String × α) → Checked (List (String × β))
  | [] => .ok []
  | (k, x) :: rest =>
    both (fun y more => (k, y) :: more) (read (path ++ [k]) x) (entries read path rest)

end Checked

def requiredField {α β : Type} (name : String) (path : List String) (fields : Table α)
    (read : List String → α → Checked β) : Checked β :=
  match fields.get? name with
  | some v => read (path ++ [name]) v
  | none => Checked.fail (path ++ [name]) .missing

def optionalField {α β : Type} (name : String) (default : β) (path : List String)
    (fields : Table α) (read : List String → α → Checked β) : Checked β :=
  match fields.get? name with
  | some v => read (path ++ [name]) v
  | none => .ok default

namespace Reader

def any : Reader Value := fun _ v => .ok v

def nullable {α : Type} (read : Reader α) : Reader (Option α)
  | _, .null => .ok none
  | path, v => some <$> read path v

def string : Reader String
  | _, .str s | _, .torn s => .ok s
  | path, _ => Checked.fail path .notString

def fields : Reader Record
  | _, .map fields => .ok fields
  | path, _ => Checked.fail path .notMap

def recordOf {α : Type} (read : Reader α) : Reader (Table α)
  | path, .map fields => Checked.entries read path fields
  | path, _ => Checked.fail path .notMap

def loneUnderscores : List Char → Bool
  | [] => true
  | ['_'] => false
  | '_' :: '_' :: _ => false
  | _ :: rest => loneUnderscores rest

def dropUnderscores? (text : List Char) : Option (List Char) :=
  if text.contains '_' && text.head? != some '_' && loneUnderscores text then
    some (text.filter (· != '_'))
  else none

/-- A plain integer: an optional minus sign and ASCII digits. A leading zero is allowed only
alone. -/
def plainInt (text : List Char) : Except Defect Int :=
  let (negative, digits) := match text with
    | '-' :: rest => (true, rest)
    | rest => (false, rest)
  let taken := digits.takeWhile Char.isDigit
  if taken.isEmpty || taken.head? = some '0' && 1 < taken.length then .error .badInt
  else if digitLimit < taken.length then .error .hugeInt
  else if taken.length < digits.length then .error .badInt
  else
    let n := digitsValue (taken.filterMap digitValue?)
    .ok (if negative then -(n : Int) else n)

/-- Drops the zeros in front of a number, underscores among them too. One character stays in
front of a point and of nothing. -/
def dropLeadingZeros? (text : List Char) : Option (List Char) :=
  match text with
  | '0' :: rest =>
    let zeros := rest.takeWhile fun c => c == '0' || c == '_'
    match rest.drop zeros.length with
    | [] => some (text.drop zeros.length)
    | '.' :: _ => some (text.drop zeros.length)
    | c :: more => if c.isDigit || c == '-' then some (c :: more) else none
  | c :: _ => if c.isDigit then some text else none
  | [] => none

def dropZeroPlaces (text : List Char) : List Char :=
  match text.dropWhile (· != '.') with
  | '.' :: '0' :: places => if places.all (· == '0') then text.takeWhile (· != '.') else text
  | _ => text

def tidyDigits? (text : List Char) : Option (List Char) :=
  (dropLeadingZeros? text).map fun text =>
    let text := dropZeroPlaces text
    (dropUnderscores? text).getD text

/-- A number without blanks around it, with at most a minus sign, and with tidy digits. -/
def tidyInt? (text : List Char) : Option (List Char) :=
  match trimNumber text with
  | '+' :: '-' :: _ => none
  | '+' :: digits => tidyDigits? digits
  | '-' :: digits => ('-' :: ·) <$> tidyDigits? digits
  | digits => tidyDigits? digits

/-- An integer spelled with blanks, a sign, zeros or underscores around its digits. -/
def spelledInt (s : String) : Except Defect Int :=
  match plainInt s.toList with
  | .error .badInt =>
    match tidyInt? s.toList with
    | some text => plainInt text
    | none => .error .badInt
  | result => result

def plainFloat? (text : List Char) : Option Float :=
  if text.all fun c => c.toNat < 0x80 && c != '_' && !isBlank c then
    readFloat? (String.ofList text)
  else none

/-- A float with blanks around it or with underscores in it, not with both. -/
def spelledFloat? (s : String) : Option Float :=
  (plainFloat? (trimNumber s.toList)).orElse fun _ =>
    (dropUnderscores? s.toList).bind plainFloat?

def spelledBool? (s : String) : Option Bool :=
  let word := s.map Char.toLower
  if ["0", "off", "f", "false", "n", "no"].contains word then some false
  else if ["1", "on", "t", "true", "y", "yes"].contains word then some true
  else none

def wholeFloat (x : Float) : Except Defect Int :=
  match reading x with
  | .finite b =>
    let n := b.truncate
    if b.compareInt n != .eq then .error .fractionalInt
    else if -(twoPow 63 : Nat) < n && n < (twoPow 63 : Nat) then .ok n
    else .error .hugeInt
  | _ => .error .infiniteInt

def int : Reader Int
  | _, .int n => .ok n
  | _, .bool b => .ok (if b then 1 else 0)
  | path, .float x =>
    match wholeFloat x with
    | .ok n => .ok n
    | .error defect => Checked.fail path defect
  | path, .nan _ => Checked.fail path .infiniteInt
  | path, .str s =>
    match spelledInt s with
    | .ok n => .ok n
    | .error defect => Checked.fail path defect
  | path, .torn _ => Checked.fail path .badString
  | path, _ => Checked.fail path .notInt

def float : Reader Float
  | _, .float x => .ok x
  | _, .nan _ => .ok notANumber
  | path, .int n =>
    match floatOfInt? n with
    | some x => .ok x
    | none => Checked.fail path .notFloat
  | _, .bool b => .ok (if b then 1 else 0)
  | path, .str s =>
    match spelledFloat? s with
    | some x => .ok x
    | none => Checked.fail path .badFloat
  | path, .torn _ => Checked.fail path .badString
  | path, _ => Checked.fail path .notFloat

def bool : Reader Bool
  | _, .bool b => .ok b
  | path, .str s =>
    match spelledBool? s with
    | some b => .ok b
    | none => Checked.fail path .badBool
  | path, .torn _ => Checked.fail path .badString
  | path, .int n =>
    if n = 0 then .ok false
    else if n = 1 then .ok true
    else if -(twoPow 63 : Nat) ≤ n && n < (twoPow 63 : Nat) then Checked.fail path .badBool
    else Checked.fail path .notBool
  | path, .float x =>
    match wholeFloat x with
    | .ok 0 => .ok false
    | .ok 1 => .ok true
    | .ok _ => Checked.fail path .badBool
    | .error _ => Checked.fail path .notBool
  | path, _ => Checked.fail path .notBool

def count : Reader Nat := fun path v => do
  let n ← int path v
  if n < 0 then Checked.fail path .tooSmall else return n.toNat

/-- A float that is not negative. NaN is refused. -/
def duration : Reader Float := fun path v => do
  let x ← float path v
  if x ≥ 0 then return x else Checked.fail path .tooSmall

end Reader

end StepWorld
