import StepWorld.Rest
import StepWorld.Value

/-! Values read from JSON text. Numbers with a fraction or an exponent are floats, all others
integers; `NaN` and the infinities are accepted; of equal keys the last one counts. A text whose
escapes name halves of characters is torn. Of several errors in a text the first one is
reported. -/

namespace StepWorld.Json

/-- Why a text holds no value: it is not JSON, or an integer in it has too many digits. -/
inductive ReadError where
  | malformed
  | longInteger (digits : Nat)
deriving DecidableEq, Repr

def isSpace (c : Char) : Bool := c == ' ' || c == '\t' || c == '\n' || c == '\r'

def hexValue? (c : Char) : Option Nat :=
  if c.isDigit then some (c.toNat - '0'.toNat)
  else if 'a' ≤ c ∧ c ≤ 'f' then some (c.toNat - 'a'.toNat + 10)
  else if 'A' ≤ c ∧ c ≤ 'F' then some (c.toNat - 'A'.toNat + 10)
  else none

def readHex? (a b c d : Char) : Option Nat := do
  let a ← hexValue? a
  let b ← hexValue? b
  let c ← hexValue? c
  let d ← hexValue? d
  return ((a * 16 + b) * 16 + c) * 16 + d

def readLowHalf? : (text : List Char) → Option (Nat × Rest text)
  | '\\' :: 'u' :: a :: b :: c :: d :: rest =>
    match readHex? a b c d with
    | some n =>
      if 0xdc00 ≤ n ∧ n < 0xe000 then
        some (n, (((((Rest.tail d rest).under c).under b).under a).under 'u').under '\\')
      else none
    | none => none
  | _ => none

def plainEscape? : Char → Option Char
  | '"' => some '"'
  | '\\' => some '\\'
  | '/' => some '/'
  | 'b' => some '\x08'
  | 'f' => some '\x0c'
  | 'n' => some '\n'
  | 'r' => some '\r'
  | 't' => some '\t'
  | _ => none

def unitChar? (n : Nat) : Option Char :=
  if 0xd800 ≤ n ∧ n < 0xe000 then none else some (Char.ofNat n)

/-- The character of a unit and of the low half that may follow it; none for half of a pair
without its other half. -/
def readUnit (n : Nat) (rest : List Char) : Option Char × Remainder rest :=
  if 0xd800 ≤ n ∧ n < 0xdc00 then
    match readLowHalf? rest with
    | some (low, more) =>
      (some (Char.ofNat (0x10000 + (n - 0xd800) * 0x400 + (low - 0xdc00))), more.weaken)
    | none => (none, .all rest)
  else (unitChar? n, .all rest)

/-- The character of an escape, after its backslash; none for half of a character. -/
def readEscape? : (text : List Char) → Option (Option Char × Rest text)
  | 'u' :: a :: b :: c :: d :: rest =>
    match readHex? a b c d with
    | none => none
    | some n =>
      let (char, more) := readUnit n rest
      some (char, ((((more.under d).under c).under b).under a).under 'u')
  | c :: rest => (plainEscape? c).map fun k => (some k, .tail c rest)
  | [] => none

def replacement : Char := '\ufffd'

def textOf (taken : List (Option Char)) : Value :=
  let text := String.ofList (taken.reverse.map (·.getD replacement))
  if taken.all Option.isSome then .str text else .torn text

/-- The rest of a string after its opening quote; `taken` holds what was read, reversed. -/
def readStringAfter? (taken : List (Option Char)) (text : List Char) :
    Option (Value × Rest text) :=
  match text with
  | [] => none
  | c :: rest =>
    if c = '"' then some (textOf taken, .tail c rest)
    else if c = '\\' then
      match readEscape? rest with
      | none => none
      | some (e, ⟨more, h⟩) =>
        match readStringAfter? (e :: taken) more with
        | none => none
        | some (s, final) => some (s, (final.within h).under c)
    else if c.toNat < 0x20 then none
    else
      match readStringAfter? (some c :: taken) rest with
      | none => none
      | some (s, final) => some (s, final.under c)
termination_by text.length
decreasing_by all_goals simp only [List.length_cons]; omega

def digitsOf (text : List Char) : List Char := text.takeWhile Char.isDigit

/-- The fraction or exponent marks at the front of a text, each with a digit after it. -/
def fractionOf : List Char → List Char
  | '.' :: rest => if (digitsOf rest).isEmpty then [] else '.' :: digitsOf rest
  | _ => []

def exponentOf : List Char → List Char
  | e :: rest =>
    if e == 'e' || e == 'E' then
      match rest with
      | sign :: more =>
        if sign == '+' || sign == '-' then
          if (digitsOf more).isEmpty then [] else e :: sign :: digitsOf more
        else if (digitsOf rest).isEmpty then [] else e :: digitsOf rest
      | [] => []
    else []
  | [] => []

/-- The integer part of a number without its sign: a lone zero or digits that start with
none. -/
def wholeOf : List Char → List Char
  | '0' :: _ => ['0']
  | text => digitsOf text

def numberText (text : List Char) : List Char :=
  let sign := if text.head? = some '-' then ['-'] else []
  let whole := wholeOf (text.drop sign.length)
  if whole.isEmpty then []
  else
    let rest := text.drop (sign.length + whole.length)
    let fraction := fractionOf rest
    sign ++ whole ++ fraction ++ exponentOf (rest.drop fraction.length)

/-- A bracket, a comma, a colon, a value without parts, an integer that is too long to be one,
or the place where a text is no JSON. -/
inductive Lexeme where
  | mark (c : Char)
  | atom (value : Value)
  | longInteger (digits : Nat)
  | malformed

def numberLexeme (text : List Char) : Lexeme :=
  let s := String.ofList text
  if text.any fun c => c == '.' || c == 'e' || c == 'E' then
    .atom (.float ((readFloat? s).getD 0))
  else
    match readInt s with
    | .ok n => .atom (.int n)
    | .error (.tooLong digits) => .longInteger digits
    | .error .notInt => .malformed

def constants : List (List Char × Value) :=
  [("null".toList, .null), ("true".toList, .bool true), ("false".toList, .bool false),
    ("NaN".toList, .nan 0), ("Infinity".toList, .float (1.0 / 0.0)),
    ("-Infinity".toList, .float (-1.0 / 0.0))]

/-- A constant or a number at the front of a text and how many characters it has. -/
def scalarAt (text : List Char) : Nat × Lexeme :=
  match constants.find? fun c => c.1.isPrefixOf text with
  | some (word, value) => (word.length, .atom value)
  | none => ((numberText text).length, numberLexeme (numberText text))

def dropUnder (c : Char) (n : Nat) (rest : List Char) : Rest (c :: rest) :=
  ⟨rest.drop n, Nat.lt_succ_of_le (List.length_drop ▸ Nat.sub_le _ _)⟩

def readScalar? (c : Char) (rest : List Char) : Option (Lexeme × Rest (c :: rest)) :=
  match scalarAt (c :: rest) with
  | (0, _) => none
  | (n + 1, lexeme) => some (lexeme, dropUnder c n rest)

def isMark (c : Char) : Bool := ['[', ']', '{', '}', ',', ':'].contains c

/-- The lexemes of a text, in front of which `taken`, reversed, is put. They end where the text
is malformed. -/
def lexemesAfter (taken : List Lexeme) (text : List Char) : List Lexeme :=
  match text with
  | [] => taken.reverse
  | c :: rest =>
    if isSpace c then lexemesAfter taken rest
    else if isMark c then lexemesAfter (.mark c :: taken) rest
    else if c = '"' then
      match readStringAfter? [] rest with
      | none => (Lexeme.malformed :: taken).reverse
      | some (text, ⟨more, _⟩) => lexemesAfter (.atom text :: taken) more
    else
      match readScalar? c rest with
      | none => (Lexeme.malformed :: taken).reverse
      | some (lexeme, ⟨more, _⟩) => lexemesAfter (lexeme :: taken) more
termination_by text.length
decreasing_by all_goals simp only [List.length_cons] at *; omega

/-- Takes a comma or the mark that closes a row of parts, and says whether the row goes on. -/
def takeFollow (close : Char) :
    (lexemes : List Lexeme) → Except ReadError (Bool × Rest lexemes)
  | .mark c :: rest =>
    if c = ',' then .ok (true, .tail _ rest)
    else if c = close then .ok (false, .tail _ rest)
    else .error .malformed
  | _ => .error .malformed

def keyOf? : Value → Option String
  | .str key | .torn key => some key
  | _ => none

mutual

def readValue (lexemes : List Lexeme) : Except ReadError (Value × Rest lexemes) :=
  match lexemes with
  | .atom value :: rest => .ok (value, .tail _ rest)
  | .longInteger digits :: _ => .error (.longInteger digits)
  | .mark '[' :: .mark ']' :: rest => .ok (.ofItems [], (Rest.tail _ rest).under _)
  | .mark '[' :: rest =>
    match readItems rest with
    | .ok (items, more) => .ok (.ofItems items, more.under _)
    | .error e => .error e
  | .mark '{' :: .mark '}' :: rest => .ok (.map [], (Rest.tail _ rest).under _)
  | .mark '{' :: rest =>
    match readFields rest with
    | .ok (fields, more) => .ok (.map (Table.ofEntries fields), more.under _)
    | .error e => .error e
  | _ => .error .malformed
termination_by 2 * lexemes.length

def readItems (lexemes : List Lexeme) : Except ReadError (List Value × Rest lexemes) :=
  match readValue lexemes with
  | .error e => .error e
  | .ok (item, ⟨after, ha⟩) =>
    match takeFollow ']' after with
    | .error e => .error e
    | .ok (false, more) => .ok ([item], more.within ha)
    | .ok (true, ⟨next, hn⟩) =>
      match readItems next with
      | .error e => .error e
      | .ok (items, more) => .ok (item :: items, (more.within hn).within ha)
termination_by 2 * lexemes.length + 1

def readFields (lexemes : List Lexeme) :
    Except ReadError (List (String × Value) × Rest lexemes) :=
  match lexemes with
  | .atom keyText :: .mark ':' :: rest =>
    match keyOf? keyText with
    | none => .error .malformed
    | some key =>
      match readValue rest with
      | .error e => .error e
      | .ok (value, ⟨after, ha⟩) =>
        match takeFollow '}' after with
        | .error e => .error e
        | .ok (false, more) => .ok ([(key, value)], ((more.within ha).under _).under _)
        | .ok (true, ⟨next, hn⟩) =>
          match readFields next with
          | .error e => .error e
          | .ok (fields, more) =>
            .ok ((key, value) :: fields, (((more.within hn).within ha).under _).under _)
  | _ => .error .malformed
termination_by 2 * lexemes.length + 1
decreasing_by all_goals (try simp only [List.length_cons]); omega

end

def read (text : String) : Except ReadError Value :=
  match readValue (lexemesAfter [] text.toList) with
  | .error e => .error e
  | .ok (value, ⟨rest, _⟩) => if rest.isEmpty then .ok value else .error .malformed

end StepWorld.Json
