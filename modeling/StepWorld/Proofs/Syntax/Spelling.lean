import StepWorld.Proofs.Syntax.Cutting
import StepWorld.Proofs.Syntax.Tiling
import StepWorld.Syntax.Expression

/-! Texts put together from parts, each of which is cut off as tokens of its own. Between two parts
nothing may belong to both, which the text behind the first one tells. Signs in front of an operand
are cut off one by one although they stand in one run with the signs behind them. -/

namespace StepWorld

variable {c : Char} {a b text rest tail run : List Char} {P Q : List Token → Prop}

def Spells (text tail : List Char) (P : List Token → Prop) : Prop :=
  ∀ place, ∃ tokens, P tokens ∧
    tokensFrom place (text ++ tail) = (tokensFrom (place.after text) tail).map (tokens ++ ·)

def Joined (P Q : List Token → Prop) (ts : List Token) : Prop :=
  ∃ us vs, ts = us ++ vs ∧ P us ∧ Q vs

def Lone (kind : TokenKind) (value : String) (ts : List Token) : Prop :=
  ∃ place, ts = [⟨kind, value, place⟩]

def LoneMark (c : Char) (ts : List Token) : Prop :=
  ∃ t : Token, ts = [t] ∧ t.isMark c = true

namespace Spells

theorem mono (h : Spells text tail P) (hPQ : ∀ ts, P ts → Q ts) : Spells text tail Q := by
  intro place
  obtain ⟨tokens, htokens, hread⟩ := h place
  exact ⟨tokens, hPQ tokens htokens, hread⟩

theorem nil (h : P []) : Spells [] tail P := by
  refine fun place => ⟨[], h, ?_⟩
  change tokensFrom place tail = (tokensFrom place tail).map ([] ++ ·)
  cases tokensFrom place tail <;> rfl

theorem append (ha : Spells a (b ++ tail) P) (hb : Spells b tail Q) :
    Spells (a ++ b) tail (Joined P Q) := by
  intro place
  obtain ⟨us, hus, hreada⟩ := ha place
  obtain ⟨vs, hvs, hreadb⟩ := hb (place.after a)
  refine ⟨us ++ vs, ⟨us, vs, rfl, hus, hvs⟩, ?_⟩
  rw [List.append_assoc, hreada, hreadb, Position.after_append]
  cases tokensFrom ((place.after a).after b) tail with
  | error e => rfl
  | ok tokens => exact congrArg Except.ok (List.append_assoc us vs tokens).symm

theorem of_piece (piece : Piece) (hproper : piece.Proper) (hends : piece.EndsBefore tail)
    (hne : piece.text ≠ []) :
    Spells piece.text tail fun ts => ∃ place, ts = piece.tokens place := by
  intro place
  obtain ⟨c, more, htext⟩ := List.exists_cons_of_ne_nil hne
  refine ⟨piece.tokens place, ⟨place, rfl⟩, ?_⟩
  have happend : piece.text ++ tail = c :: (more ++ tail) := by rw [htext, List.cons_append]
  rw [happend]
  exact tokensFrom_of_piece (nextPiece_of_proper happend hproper hends) place

theorem tokenize {source : String} (h : Spells source.toList [] P) :
    ∃ tokens, P tokens ∧ tokenize source = .ok tokens := by
  obtain ⟨tokens, htokens, hread⟩ := h .start
  refine ⟨tokens, htokens, ?_⟩
  rw [List.append_nil, tokensFrom] at hread
  exact hread.trans (congrArg Except.ok (List.append_nil tokens))

end Spells

/-! ### Single tokens -/

def Apart (tail : List Char) : Prop := ∀ c ∈ tail.head?, isWordPart c = false ∧ c ≠ '.'

theorem apart_nil : Apart [] := fun _ h => nomatch h

theorem apart_cons (hc : isWordPart c = false) (hdot : c ≠ '.') : Apart (c :: tail) := by
  intro d hd
  cases hd
  exact ⟨hc, hdot⟩

theorem spells_mark (h : isMark c = true) : Spells [c] tail (LoneMark c) := by
  have hspells : Spells _ tail _ := .of_piece (.mark c) h trivial (List.cons_ne_nil _ _)
  refine hspells.mono ?_
  rintro ts ⟨place, hts⟩
  refine ⟨_, hts, ?_⟩
  simp [Token.isMark]

theorem spells_word {name : String} (h : (Piece.word name.toList).Proper)
    (hends : ∀ c ∈ tail.head?, isWordPart c = false) :
    Spells name.toList tail (Lone .identifier name) := by
  obtain ⟨c, more, htext, -⟩ := id h
  have hspells := Spells.of_piece (.word name.toList) h hends (by simp [Piece.text, htext])
  refine hspells.mono ?_
  rintro ts ⟨place, hts⟩
  refine ⟨place, ?_⟩
  rw [hts, Piece.tokens, String.ofList_toList]

theorem spells_quotation {text : String} (h : '"' ∉ text.toList) :
    Spells ('"' :: (text.toList ++ ['"'])) tail (Lone .string text) := by
  have hspells : Spells _ tail _ :=
    .of_piece (.quotation '"' text.toList) ⟨.inl rfl, h⟩ trivial (List.cons_ne_nil _ _)
  refine hspells.mono ?_
  rintro ts ⟨place, hts⟩
  refine ⟨place, ?_⟩
  rw [hts, Piece.tokens, String.ofList_toList]

theorem isWordPart_of_isDigit (h : c.isDigit = true) : isWordPart c = true := by
  simp [isWordPart, Char.isAlphanum, h]

theorem spells_digits {digits : String} (hne : digits.toList ≠ [])
    (h : ∀ c ∈ digits.toList, c.isDigit = true) (htail : Apart tail) :
    Spells digits.toList tail (Lone .number digits) := by
  have hends : (Piece.numeral digits.toList).EndsBefore tail := by
    refine ⟨fun c hc => ?_, fun _ c _ hdot => absurd rfl (htail '.' hdot).2⟩
    exact Bool.eq_false_iff.mpr fun hdigit =>
      Bool.eq_false_iff.mp (htail c hc).1 (isWordPart_of_isDigit hdigit)
  have hspells := Spells.of_piece (.numeral digits.toList) (.whole hne h) hends hne
  refine hspells.mono ?_
  rintro ts ⟨place, hts⟩
  refine ⟨place, ?_⟩
  rw [hts, Piece.tokens, String.ofList_toList]

theorem spells_blank (h : ∀ c ∈ tail.head?, isBlank c = false) : Spells [' '] tail (· = []) := by
  have hproper : (Piece.blank [' ']).Proper :=
    ⟨List.cons_ne_nil _ _, List.forall_mem_singleton.mpr (by decide)⟩
  have hspells := Spells.of_piece (.blank [' ']) hproper h (List.cons_ne_nil _ _)
  refine hspells.mono ?_
  rintro ts ⟨place, hts⟩
  exact hts

/-! ### Operators -/

theorem takeRun_before_blank (h : takeRun run = (run, [])) :
    takeRun (run ++ ' ' :: tail) = (run, ' ' :: tail) := by
  induction run with
  | nil => rfl
  | cons c run ih =>
    obtain ⟨hc, hrest⟩ := takeRun_cons h
    refine takeRun_of_cons ?_ (ih hrest)
    rcases hc with hc | ⟨hslash, hopen⟩
    · exact .inl hc
    · cases run with
      | nil => exact .inr ⟨hslash, rfl⟩
      | cons d run => exact .inr ⟨hslash, hopen⟩

theorem splitRun_of_longest (h : longestOperator? (c :: rest) = some (c :: rest)) :
    splitRun (c :: rest) = [c :: rest] := by
  rw [splitRun, h]
  change (c :: rest) :: splitRun (rest.drop rest.length) = _
  rw [List.drop_length, splitRun]

theorem known_operators : ∀ op ∈ knownOperators, takeRun op.toList = (op.toList, []) ∧
    longestOperator? op.toList = some op.toList ∧ op.toList ≠ [] := by decide

theorem spells_operator {op : String} (h : op ∈ knownOperators)
    (htail : ∀ c ∈ tail.head?, isBlank c = false) :
    Spells (' ' :: (op.toList ++ [' '])) tail (Lone .operator op) := by
  obtain ⟨hrun, hlongest, hne⟩ := known_operators op h
  have hrun' : Spells op.toList ([' '] ++ tail) (Lone .operator op) := by
    have hspells : Spells _ ([' '] ++ tail) _ :=
      .of_piece (.operators op.toList) hne (takeRun_before_blank hrun) hne
    refine hspells.mono ?_
    rintro ts ⟨place, hts⟩
    refine ⟨place, ?_⟩
    obtain ⟨c, more, htext⟩ := List.exists_cons_of_ne_nil hne
    rw [htext] at hlongest
    rw [hts, Piece.tokens, htext, splitRun_of_longest hlongest, ← htext]
    simp [operatorTokens]
  have hfirst : ∀ c ∈ (op.toList ++ [' '] ++ tail).head?, isBlank c = false := by
    intro c hc
    obtain ⟨d, more, htext⟩ := List.exists_cons_of_ne_nil hne
    rw [htext] at hc hrun
    cases hc
    rcases (takeRun_cons hrun).1 with hoperator | ⟨rfl, -⟩
    · exact (begins_only_signs (.inl hoperator)).1
    · decide
  refine ((spells_blank hfirst).append (hrun'.append (spells_blank htail))).mono ?_
  rintro _ ⟨_, _, rfl, rfl, _, _, rfl, ⟨place, rfl⟩, rfl⟩
  exact ⟨place, rfl⟩

/-- Whether a text begins so that a sign, a blank or a mark before it stays what it is. After a
minus sign, `>` and `=` would make it another operator. -/
def Starts (text : List Char) : Prop :=
  ∃ c rest, text = c :: rest ∧ isBlank c = false ∧ c ≠ '>' ∧ c ≠ '='

theorem starts_cons (hblank : isBlank c = false) (hgreater : c ≠ '>') (hequal : c ≠ '=') :
    Starts (c :: rest) := ⟨c, rest, rfl, hblank, hgreater, hequal⟩

theorem Starts.append (h : Starts a) (b : List Char) : Starts (a ++ b) := by
  obtain ⟨c, rest, rfl, hc⟩ := h
  exact ⟨c, rest ++ b, rfl, hc⟩

theorem Starts.not_blank (h : Starts text) : ∀ c ∈ text.head?, isBlank c = false := by
  obtain ⟨c, rest, rfl, hblank, -⟩ := h
  intro d hd
  cases hd
  exact hblank

theorem starts_word (h : (Piece.word text).Proper) : Starts text := by
  obtain ⟨c, rest, rfl, hword, -⟩ := h
  have hrange := isWordStart_range hword
  refine starts_cons (isBlank_eq_false_of_range (by omega)) ?_ ?_
  all_goals
    rintro rfl
    exact absurd hword (by decide)

theorem starts_digits (hne : text ≠ []) (h : ∀ c ∈ text, c.isDigit = true) : Starts text := by
  obtain ⟨c, rest, rfl⟩ := List.exists_cons_of_ne_nil hne
  have hdigit := h c List.mem_cons_self
  have hrange := isDigit_range hdigit
  refine starts_cons (isBlank_eq_false_of_range (by omega)) ?_ ?_
  all_goals
    rintro rfl
    exact absurd hdigit (by decide)

theorem longestOperator?_sign (hc : c = '-' ∨ c = '¬')
    (hrun : ∀ d ∈ run.head?, d ≠ '>' ∧ d ≠ '=') : longestOperator? (c :: run) = some [c] := by
  cases run with
  | nil => rcases hc with rfl | rfl <;> decide
  | cons d run =>
    obtain ⟨hgreater, hequal⟩ := hrun d rfl
    rcases hc with rfl | rfl <;>
      simp [longestOperator?, knownOperators, List.isPrefixOf, hgreater.symm, hequal.symm]

theorem nextPiece_run (h : takeRun (c :: rest) = (c :: run, tail)) :
    nextPiece c rest = .ok (.operators (c :: run), tail) := by
  have happend : c :: run ++ tail = c :: rest := by
    have happend := takeRun_append (c :: rest)
    rwa [h] at happend
  exact nextPiece_of_proper happend (List.cons_ne_nil _ _) (by rw [Piece.EndsBefore, happend, h])

theorem tokensFrom_run (h : takeRun (c :: rest) = (c :: run, tail)) (place : Position) :
    tokensFrom place (c :: rest) = (tokensFrom (place.after (c :: run)) tail).map
      (operatorTokens place (splitRun (c :: run)) ++ ·) :=
  tokensFrom_of_piece (nextPiece_run h) place

theorem splitRun_sign (hc : c = '-' ∨ c = '¬') (hrun : ∀ d ∈ run.head?, d ≠ '>' ∧ d ≠ '=') :
    splitRun (c :: run) = [c] :: splitRun run := by
  rw [splitRun, longestOperator?_sign hc hrun]
  rfl

theorem tokensFrom_sign (hc : c = '-' ∨ c = '¬') (htext : Starts text) (place : Position) :
    tokensFrom place (c :: text) =
      (tokensFrom (place.next c) text).map ([⟨.operator, String.singleton c, place⟩] ++ ·) := by
  have hoperator : isOperatorChar c = true := by rcases hc with rfl | rfl <;> decide
  cases hrun : takeRun text with
  | mk run tail =>
  have happend : run ++ tail = text := by
    have happend := takeRun_append text
    rwa [hrun] at happend
  have hhead : ∀ d ∈ run.head?, d ≠ '>' ∧ d ≠ '=' := by
    intro d hd
    obtain ⟨more, rfl⟩ := List.head?_eq_some_iff.mp hd
    obtain ⟨c, rest, rfl, -, hne⟩ := htext
    cases happend
    exact hne
  -- The run of the whole text is split as the sign and the run behind it.
  rw [tokensFrom_run (takeRun_of_cons (.inl hoperator) hrun), splitRun_sign hc hhead]
  cases run with
  | nil =>
    rw [splitRun, ← happend]
    rfl
  | cons d run =>
    subst happend
    rw [List.cons_append] at hrun ⊢
    rw [tokensFrom_run hrun]
    change Except.map _ (tokensFrom ((place.next c).after (d :: run)) tail) =
      Except.map _ (Except.map _ (tokensFrom ((place.next c).after (d :: run)) tail))
    cases tokensFrom ((place.next c).after (d :: run)) tail <;> rfl

theorem Spells.sign (h : Spells text tail P) (hc : c = '-' ∨ c = '¬')
    (htext : Starts text) :
    Spells (c :: text) tail (Joined (Lone .operator (String.singleton c)) P) := by
  intro place
  obtain ⟨ts, hts, hread⟩ := h (place.next c)
  refine ⟨⟨.operator, String.singleton c, place⟩ :: ts, ⟨[_], ts, rfl, ⟨place, rfl⟩, hts⟩, ?_⟩
  rw [List.cons_append, tokensFrom_sign hc (htext.append tail), hread]
  change Except.map _ (Except.map _ (tokensFrom ((place.next c).after text) tail)) =
    Except.map _ (tokensFrom ((place.next c).after text) tail)
  cases tokensFrom ((place.next c).after text) tail <;> rfl

end StepWorld
