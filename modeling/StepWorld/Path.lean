/-! Paths: segments between slashes, without empty ones and without single dots. Joining an
absolute path replaces what stands before it. -/

namespace StepWorld

/-- The slashes in front are none, one or two; two are kept apart from one. -/
structure Path where
  slashes : Nat
  segments : List String
deriving DecidableEq, Repr

namespace Path

/-- The pieces of a text between slashes; `piece` holds the current one, reversed. -/
def splitSlashes (piece : List Char) : List Char → List (List Char)
  | [] => [piece.reverse]
  | '/' :: rest => piece.reverse :: splitSlashes [] rest
  | c :: rest => splitSlashes (c :: piece) rest

def ofString (text : String) : Path :=
  let leading := (text.toList.takeWhile (· == '/')).length
  { slashes := if leading = 2 then 2 else min leading 1
    segments := ((splitSlashes [] text.toList).map String.ofList).filter
      fun s => s != "" && s != "." }

def toString (p : Path) : String :=
  let front := String.ofList (List.replicate p.slashes '/')
  if p.slashes = 0 ∧ p.segments = [] then "." else front ++ String.intercalate "/" p.segments

def join (p q : Path) : Path :=
  if q.slashes = 0 then { p with segments := p.segments ++ q.segments } else q

def parent (p : Path) : Path := { p with segments := p.segments.dropLast }

def child (p : Path) (name : String) : Path := { p with segments := p.segments ++ [name] }

end Path

end StepWorld
