import StepWorld.Syntax.Token
import StepWorld.Text.Blank

/-! Source text as a row of pieces: gaps (blanks and comments) and literals. Each piece is
the longest of its class, and the pieces of a source concatenate to the source. -/

namespace StepWorld

inductive Piece where
  | blank (text : List Char)
  | lineComment (text : List Char)
  | blockComment (text : List Char)
  | word (text : List Char)
  | numeral (text : List Char)
  | quotation (quote : Char) (body : List Char)
  | operators (text : List Char)
  | mark (c : Char)
deriving DecidableEq, Repr

def Piece.text : Piece → List Char
  | .blank text | .lineComment text | .blockComment text => text
  | .word text | .numeral text | .operators text => text
  | .quotation quote body => quote :: (body ++ [quote])
  | .mark c => [c]

inductive LexicalCause where
  | unexpectedCharacter
  | unterminatedString
  | unclosedComment
deriving DecidableEq, Repr

def isWordStart (c : Char) : Bool := c.isAlpha || c == '_'

def isWordPart (c : Char) : Bool := c.isAlphanum || c == '_'

def isOperatorChar (c : Char) : Bool :=
  ['+', '-', '*', '=', '<', '>', '!', '&', '|', '^', '~', '%', '∧', '∨', '¬'].contains c

def isMark (c : Char) : Bool :=
  ['(', ')', '{', '}', '[', ']', ';', ',', ':', '.'].contains c

def opensComment : List Char → Bool
  | c :: _ => c == '/' || c == '*'
  | [] => false

/-- A run of operator characters. A slash that opens a comment is not part of it. -/
def takeRun : List Char → List Char × List Char
  | [] => ([], [])
  | c :: rest =>
    if isOperatorChar c || (c == '/' && !opensComment rest) then
      (c :: (takeRun rest).1, (takeRun rest).2)
    else ([], c :: rest)

/-- The inside of a block comment with its end mark, and the text after it. -/
def closeComment? : List Char → Option (List Char × List Char)
  | [] => none
  | '*' :: '/' :: rest => some (['*', '/'], rest)
  | c :: rest => (closeComment? rest).map fun (body, tail) => (c :: body, tail)

def closeQuote? (quote : Char) : List Char → Option (List Char × List Char)
  | [] => none
  | c :: rest =>
    if c = quote then some ([], rest)
    else (closeQuote? quote rest).map fun (body, tail) => (c :: body, tail)

/-- Digits with an optional point and places; a point without a digit after it is not part
of the number. -/
def takeNumeral (text : List Char) : List Char × List Char :=
  let whole := text.takeWhile Char.isDigit
  match text.dropWhile Char.isDigit with
  | '.' :: d :: rest =>
    if d.isDigit then
      (whole ++ '.' :: (d :: rest).takeWhile Char.isDigit, (d :: rest).dropWhile Char.isDigit)
    else (whole, '.' :: d :: rest)
  | rest => (whole, rest)

/-- The piece at the front of a text that begins with `c`, and the text after it. -/
def nextPiece (c : Char) (rest : List Char) : Except LexicalCause (Piece × List Char) :=
  if isBlank c then .ok (.blank (c :: rest.takeWhile isBlank), rest.dropWhile isBlank)
  else if c = '/' ∧ rest.head? = some '/' then
    .ok (.lineComment (c :: rest.takeWhile (· != '\n')), rest.dropWhile (· != '\n'))
  else if c = '/' ∧ rest.head? = some '*' then
    match closeComment? rest.tail with
    | some (body, tail) => .ok (.blockComment (c :: '*' :: body), tail)
    | none => .error .unclosedComment
  else if isWordStart c then
    .ok (.word (c :: rest.takeWhile isWordPart), rest.dropWhile isWordPart)
  else if c.isDigit then
    .ok (.numeral (takeNumeral (c :: rest)).1, (takeNumeral (c :: rest)).2)
  else if c = '"' ∨ c = '\'' then
    match closeQuote? c rest with
    | some (body, tail) => .ok (.quotation c body, tail)
    | none => .error .unterminatedString
  else if isOperatorChar c ∨ c = '/' then
    .ok (.operators (c :: (takeRun rest).1), (takeRun rest).2)
  else if isMark c then .ok (.mark c, rest)
  else .error .unexpectedCharacter

theorem takeRun_append (text : List Char) : (takeRun text).1 ++ (takeRun text).2 = text := by
  induction text with
  | nil => rfl
  | cons c rest ih =>
    unfold takeRun
    split
    · simpa using ih
    · rfl

theorem closeComment?_append {text body tail : List Char}
    (h : closeComment? text = some (body, tail)) : body ++ tail = text := by
  induction text using closeComment?.induct generalizing body tail with
  | case1 => simp [closeComment?] at h
  | case2 rest =>
    simp only [closeComment?, Option.some.injEq, Prod.mk.injEq] at h
    obtain ⟨rfl, rfl⟩ := h
    rfl
  | case3 c rest hne ih =>
    rw [closeComment?] at h
    · obtain ⟨⟨b, t⟩, hb, he⟩ := Option.map_eq_some_iff.mp h
      simp only [Prod.mk.injEq] at he
      obtain ⟨rfl, rfl⟩ := he
      simp [ih hb]
    · exact hne

theorem closeQuote?_append {quote : Char} {text body tail : List Char}
    (h : closeQuote? quote text = some (body, tail)) : body ++ quote :: tail = text := by
  induction text generalizing body tail with
  | nil => simp [closeQuote?] at h
  | cons c rest ih =>
    unfold closeQuote? at h
    split at h
    · next hc =>
      simp only [Option.some.injEq, Prod.mk.injEq] at h
      obtain ⟨rfl, rfl⟩ := h
      simp [hc]
    · obtain ⟨⟨b, t⟩, hb, he⟩ := Option.map_eq_some_iff.mp h
      simp only [Prod.mk.injEq] at he
      obtain ⟨rfl, rfl⟩ := he
      simp [ih hb]

theorem takeNumeral_append (text : List Char) :
    (takeNumeral text).1 ++ (takeNumeral text).2 = text := by
  have key := List.takeWhile_append_dropWhile (p := Char.isDigit) (l := text)
  unfold takeNumeral
  split
  · next d rest hd =>
    split
    · have inner := List.takeWhile_append_dropWhile (p := Char.isDigit) (l := d :: rest)
      rw [hd] at key
      simp only [List.append_assoc, List.cons_append, inner]
      exact key
    · rw [hd] at key
      exact key
  · exact key

theorem nextPiece_append {c : Char} {rest tail : List Char} {piece : Piece}
    (h : nextPiece c rest = .ok (piece, tail)) : piece.text ++ tail = c :: rest := by
  unfold nextPiece at h
  split at h
  · cases h
    simp [Piece.text]
  split at h
  · cases h
    simp [Piece.text]
  split at h
  · next hopen =>
    split at h
    · next body tail' hclose =>
      cases h
      have ha := closeComment?_append hclose
      cases rest with
      | nil => simp at hopen
      | cons d more =>
        simp only [List.head?_cons, Option.some.injEq, List.tail_cons] at hopen ha
        simp [Piece.text, hopen.2, ha]
    · cases h
  split at h
  · cases h
    simp [Piece.text]
  split at h
  · cases h
    exact takeNumeral_append (c :: rest)
  split at h
  · split at h
    · next body tail' hclose =>
      cases h
      simp [Piece.text, closeQuote?_append hclose]
    · cases h
  split at h
  · cases h
    simp [Piece.text, takeRun_append]
  split at h
  · cases h
    rfl
  · cases h

theorem takeNumeral_ne_nil {c : Char} {rest : List Char} (h : c.isDigit) :
    (takeNumeral (c :: rest)).1 ≠ [] := by
  unfold takeNumeral
  split
  · split <;> simp [h]
  · simp [h]

theorem nextPiece_text_ne_nil {c : Char} {rest tail : List Char} {piece : Piece}
    (h : nextPiece c rest = .ok (piece, tail)) : piece.text ≠ [] := by
  unfold nextPiece at h
  repeat' split at h
  all_goals first
    | (cases h; done)
    | (cases h; simp [Piece.text]; done)
    | (cases h; exact takeNumeral_ne_nil (by assumption))

theorem nextPiece_shorter {c : Char} {rest tail : List Char} {piece : Piece}
    (h : nextPiece c rest = .ok (piece, tail)) : tail.length < (c :: rest).length := by
  have ha := congrArg List.length (nextPiece_append h)
  have hp := List.length_pos_iff.mpr (nextPiece_text_ne_nil h)
  simp only [List.length_append] at ha
  omega

end StepWorld
