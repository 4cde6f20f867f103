import StepWorld.Number.Layout
import StepWorld.Number.Parsing
import StepWorld.Table
import StepWorld.Text.Quoted

/-! Free-form values: what properties and variables hold. A property's declared type fixes
only where it starts, so every operation here is defined on all values. A NaN that was given
rather than computed has a payload, which tells it from other given ones inside lists and
maps; it equals no number. A text is torn if halves of characters stand in it alone; a
replacement stands for each of them. A list has an origin, which tells whether two lists are one and the
same: what is appended to a list shows wherever it is held. -/

namespace StepWorld

/-- Where a list comes from: it stands in a document and is no other list, it is the list of a
number that was handed in, or it was made with an instance, at some place within the first
value of a property. -/
inductive Origin where
  | document
  | given (number : Nat)
  | made (instanceId property : String) (place : List Nat)
deriving DecidableEq, Repr, Inhabited

inductive Value where
  | null
  | bool (b : Bool)
  | int (n : Int)
  | float (x : Float)
  | nan (payload : Nat)
  | str (s : String)
  | torn (s : String)
  | list (origin : Origin) (items : List Value)
  | map (fields : List (String × Value))
deriving Inhabited

def Value.ofItems (items : List Value) : Value := .list .document items

/-- Named values: the properties of an instance, the variables of a world. -/
abbrev Record := Table Value

def notANumber : Float := 0.0 / 0.0

inductive Number where
  | whole (n : Int)
  | real (x : Float)

/-- How one value lies to another; NaN lies to no number in any way. -/
inductive Relation where
  | less
  | equal
  | greater
  | unordered
deriving DecidableEq, Repr

namespace Relation

def ofOrdering : Ordering → Relation
  | .lt => less
  | .eq => equal
  | .gt => greater

def flip : Relation → Relation
  | less => greater
  | greater => less
  | r => r

end Relation

def Number.relation : Number → Number → Relation
  | .whole a, .whole b => .ofOrdering (compare a b)
  | .real x, .real y =>
    if x < y then .less else if x == y then .equal else if y < x then .greater else .unordered
  | .real x, .whole n => (compareFloatInt? x n).elim .unordered .ofOrdering
  | .whole n, .real x => (compareFloatInt? x n).elim .unordered fun o => (Relation.ofOrdering o).flip

namespace Value

/-- The number a value is. Truth values are no numbers. -/
def number? : Value → Option Number
  | .int n => some (.whole n)
  | .float x => some (.real x)
  | .nan _ => some (.real notANumber)
  | _ => none

/-- The number a value counts as in an order, where a truth value counts as 0 or 1. -/
def rank? : Value → Option Number
  | .bool b => some (.whole (if b then 1 else 0))
  | v => v.number?

def isNumber (v : Value) : Bool := v.number?.isSome

/-- Null, zero and everything empty are false; all else is true. -/
def truth : Value → Bool
  | .null => false
  | .bool b => b
  | .int n => n != 0
  | .float x => !(x == 0)
  | .nan _ => true
  | .str s => s != ""
  | .torn _ => true
  | .list _ items => !items.isEmpty
  | .map fields => !fields.isEmpty

/-- The parts of a value in a row: the items of a list, the characters of a text, the keys of a
map. What counts as false has none; other values are no rows. -/
def parts? : Value → Option (List Value)
  | .list _ items => some items
  | .str s => some (s.toList.map fun c => .str (String.singleton c))
  | .map fields => some (fields.map fun field => .str field.1)
  | v => if v.truth then none else some []

def samePayload : Value → Value → Bool
  | .nan p, .nan q => p == q
  | _, _ => false

mutual

/-- Equality in which truth values count as 0 and 1, maps have no order and lists no origin. -/
def same : Value → Value → Bool
  | .null, .null => true
  | .str s, .str t => s == t
  | .torn s, .torn t => s == t
  | .list _ xs, .list _ ys => sameItems xs ys
  | .map xs, .map ys => xs.length == ys.length && sameFields xs ys
  | v, w =>
    match v.rank?, w.rank? with
    | some a, some b => a.relation b == .equal
    | _, _ => false

/-- Equality of items: a given NaN equals itself. -/
def sameItems : List Value → List Value → Bool
  | [], [] => true
  | x :: xs, y :: ys => (samePayload x y || same x y) && sameItems xs ys
  | _, _ => false

/-- Whether every entry of the first map has an equal entry in the second. -/
def sameFields : List (String × Value) → List (String × Value) → Bool
  | [], _ => true
  | (k, v) :: rest, ys =>
    (match Table.get? k ys with
      | some w => samePayload v w || same v w
      | none => false) && sameFields rest ys

end

mutual

/-- How two values lie to each other; nothing if they have no common order. Texts are
ordered by code points and lists by their first difference. -/
def order? : Value → Value → Option Relation
  | .str s, .str t => some (.ofOrdering (compare s t))
  | .list _ xs, .list _ ys => orderItems? xs ys
  | v, w =>
    match v.rank?, w.rank? with
    | some a, some b => some (a.relation b)
    | _, _ => none

def orderItems? : List Value → List Value → Option Relation
  | [], [] => some .equal
  | [], _ :: _ => some .less
  | _ :: _, [] => some .greater
  | x :: xs, y :: ys =>
    if samePayload x y || same x y then orderItems? xs ys else order? x y

end

mutual

def text : Value → String
  | .null => "None"
  | .bool b => if b then "True" else "False"
  | .int n => toString n
  | .float x => floatText x
  | .nan _ => "nan"
  | .str s | .torn s => quoted s
  | .list _ items => "[" ++ String.intercalate ", " (itemTexts items) ++ "]"
  | .map fields => "\x7b" ++ String.intercalate ", " (fieldTexts fields) ++ "\x7d"

def itemTexts : List Value → List String
  | [] => []
  | v :: rest => text v :: itemTexts rest

def fieldTexts : List (String × Value) → List String
  | [] => []
  | (k, v) :: rest => (quoted k ++ ": " ++ text v) :: fieldTexts rest

end

mutual

/-- Whether a value can be written into a text. Only integers can be too long for that. -/
def isWritable : Value → Bool
  | .int n => StepWorld.isWritable n
  | .list _ items => itemsWritable items
  | .map fields => fieldsWritable fields
  | _ => true

def itemsWritable : List Value → Bool
  | [] => true
  | v :: rest => isWritable v && itemsWritable rest

def fieldsWritable : List (String × Value) → Bool
  | [] => true
  | (_, v) :: rest => isWritable v && fieldsWritable rest

end

/-- A value as running text: a text stands for itself. -/
def display : Value → String
  | .str s => s
  | v => v.text

end Value

end StepWorld
