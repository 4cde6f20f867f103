import StepWorld.Proofs.Syntax.Cutting
import StepWorld.Review

/-! What the first checks of a review see of a source that is cut into pieces. Outside comments
and quotations no slash opens a comment, so the text that is left for counting braces consists of
the other pieces, and the braces in it are those among the tokens. -/

namespace StepWorld

variable {c : Char} {text rest tail x : List Char} {piece : Piece} {pieces : List Piece}

inductive Inert : List Char → List Char → Prop
  | nil {tail : List Char} : Inert [] tail
  | cons {c : Char} {x tail : List Char} : (c = '/' → opensComment (x ++ tail) = false) →
      Inert x tail → Inert (c :: x) tail

theorem Inert.of_forall (h : ∀ c ∈ x, c ≠ '/') : Inert x tail := by
  induction x with
  | nil => exact .nil
  | cons c x ih =>
    exact .cons (fun hc => absurd hc (h c List.mem_cons_self))
      (ih fun d hd => h d (List.mem_cons_of_mem c hd))

theorem Inert.of_takeRun (h : takeRun (x ++ tail) = (x, tail)) : Inert x tail := by
  induction x with
  | nil => exact .nil
  | cons c x ih =>
    obtain ⟨hc, hrest⟩ := takeRun_cons h
    refine .cons (fun hslash => ?_) (ih hrest)
    subst hslash
    rcases hc with hc | ⟨-, hopen⟩
    · exact absurd hc (by decide)
    · exact hopen

theorem of_mem_takeRun (h : takeRun (x ++ tail) = (x, tail)) (hc : c ∈ x) :
    isOperatorChar c = true ∨ c = '/' := by
  induction x with
  | nil => cases hc
  | cons d x ih =>
    obtain ⟨hd, hrest⟩ := takeRun_cons h
    rcases List.mem_cons.mp hc with rfl | hc
    · exact hd.imp_right And.left
    · exact ih hrest hc

def Piece.IsExposed : Piece → Prop
  | .lineComment _ | .blockComment _ | .quotation _ _ => False
  | _ => True

def Piece.exposed : Piece → List Char
  | .lineComment _ | .blockComment _ | .quotation _ _ => []
  | piece => piece.text

theorem isWordPart_eq (c : Char) : isWordPart c = (isWordStart c || c.isDigit) :=
  Bool.or_right_comm c.isAlpha c.isDigit (c == '_')

/-- No piece but comments and quotations has a slash that opens a comment, or a quote. -/
theorem Piece.inert (hproper : piece.Proper) (hends : piece.EndsBefore tail)
    (hexposed : piece.IsExposed) :
    Inert piece.text tail ∧ ∀ c ∈ piece.text, c ≠ '"' ∧ c ≠ '\'' := by
  have hplain {x : List Char} (h : ∀ c ∈ x, c ≠ '/' ∧ c ≠ '"' ∧ c ≠ '\'') :
      Inert x tail ∧ ∀ c ∈ x, c ≠ '"' ∧ c ≠ '\'' :=
    ⟨.of_forall fun c hc => (h c hc).1, fun c hc => (h c hc).2⟩
  have hdigit {c : Char} (h : c.isDigit = true) : c ≠ '/' ∧ c ≠ '"' ∧ c ≠ '\'' := by
    refine ⟨?_, ?_, ?_⟩ <;> rintro rfl <;> exact absurd h (by decide)
  cases piece with
  | lineComment | blockComment | quotation => exact hexposed.elim
  | blank text =>
    refine hplain fun c hc => ?_
    have hblank := hproper.2 c hc
    refine ⟨?_, ?_, ?_⟩ <;> rintro rfl <;> exact absurd hblank (by decide)
  | word text =>
    obtain ⟨d, more, rfl, hstart, hpart⟩ := hproper
    refine hplain fun c hc => ?_
    have hall : isWordPart c = true := by
      rcases List.mem_cons.mp hc with rfl | hc
      · rw [isWordPart_eq, hstart]
        rfl
      · exact hpart c hc
    refine ⟨?_, ?_, ?_⟩ <;> rintro rfl <;> exact absurd hall (by decide)
  | numeral text =>
    refine hplain fun c hc => ?_
    cases hproper with
    | whole _ hall => exact hdigit (hall c hc)
    | decimal _ hall _ hall' =>
      rcases List.mem_append.mp hc with hc | hc
      · exact hdigit (hall c hc)
      · rcases List.mem_cons.mp hc with rfl | hc
        · decide
        · exact hdigit (hall' c hc)
  | operators run =>
    refine ⟨.of_takeRun hends, fun c hc => ?_⟩
    rcases of_mem_takeRun hends hc with h | rfl
    · obtain ⟨-, -, -, hdouble, hsingle, -⟩ := begins_only_signs (.inl h)
      exact ⟨hdouble, hsingle⟩
    · decide
  | mark d =>
    refine hplain fun c hc => ?_
    obtain rfl := List.mem_singleton.mp hc
    obtain ⟨-, -, -, hdouble, hsingle, hslash⟩ := begins_only_signs (.inr hproper)
    exact ⟨hslash, hdouble, hsingle⟩

theorem quotation_text_append (quote : Char) (body tail : List Char) :
    Piece.text (.quotation quote body) ++ tail = quote :: (body ++ quote :: tail) := by
  simp [Piece.text]

theorem closeComment?_append_tail {inner : List Char} (h : ¬ ['*', '/'] <:+: inner ++ ['*'])
    (tail : List Char) :
    closeComment? (inner ++ ['*', '/'] ++ tail) = some (inner ++ ['*', '/'], tail) := by
  simpa using closeComment?_of_inner h tail

/-! ### The text outside comments and quotations -/

theorem exposed_nil : exposed [] = [] := by
  rw [exposed]

theorem exposed_cons (hslash : c = '/' → opensComment rest = false) (hdouble : c ≠ '"')
    (hsingle : c ≠ '\'') : exposed (c :: rest) = c :: exposed rest := by
  have hline : ¬(c = '/' ∧ rest.head? = some '/') := fun ⟨hc, hhead⟩ =>
    (opensComment_eq_false_iff.mp (hslash hc)).1 hhead
  have hblock : ¬(c = '/' ∧ rest.head? = some '*') := fun ⟨hc, hhead⟩ =>
    (opensComment_eq_false_iff.mp (hslash hc)).2 hhead
  rw [exposed, if_neg hline, if_neg hblock, if_neg (by simp [hdouble, hsingle])]

theorem exposed_append (hinert : Inert x tail) (hquotes : ∀ c ∈ x, c ≠ '"' ∧ c ≠ '\'') :
    exposed (x ++ tail) = x ++ exposed tail := by
  induction hinert with
  | nil => rfl
  | @cons c x tail hslash _ ih =>
    obtain ⟨hdouble, hsingle⟩ := hquotes c List.mem_cons_self
    rw [List.cons_append, exposed_cons hslash hdouble hsingle,
      ih fun d hd => hquotes d (List.mem_cons_of_mem c hd), List.cons_append]

theorem exposed_piece (hproper : piece.Proper) (hends : piece.EndsBefore tail) :
    exposed (piece.text ++ tail) = piece.exposed ++ exposed tail := by
  -- Comments and quotations are dropped as a whole, all other pieces are kept letter by letter.
  cases piece with
  | blank | word | numeral | operators | mark =>
    obtain ⟨hinert, hquotes⟩ := Piece.inert hproper hends trivial
    exact exposed_append hinert hquotes
  | lineComment text =>
    obtain ⟨body, rfl, hbody⟩ := hproper
    have hall : ∀ c ∈ '/' :: body, (c != '\n') = true := by
      intro c hc
      rcases List.mem_cons.mp hc with rfl | hc
      · decide
      · simpa using fun heq : c = '\n' => hbody (heq ▸ hc)
    have hdrop : ('/' :: body ++ tail).dropWhile (· != '\n') = tail :=
      dropWhile_append_of_ends hall (by simpa [Piece.EndsBefore] using hends)
    change exposed ('/' :: ('/' :: body ++ tail)) = exposed tail
    rw [exposed, if_pos ⟨rfl, rfl⟩, hdrop]
  | blockComment text =>
    obtain ⟨inner, rfl, hinner⟩ := hproper
    have hclose := closeComment?_append_tail hinner tail
    change exposed ('/' :: ('*' :: (inner ++ ['*', '/'] ++ tail))) = exposed tail
    rw [exposed, if_neg (by simp), if_pos ⟨rfl, rfl⟩]
    split
    · next body rest h =>
      rw [List.tail_cons, hclose] at h
      cases h
      rfl
    · next h =>
      rw [List.tail_cons, hclose] at h
      cases h
  | quotation quote body =>
    obtain ⟨hquote, hbody⟩ := hproper
    have hclose : closeQuote? quote (body ++ quote :: tail) = some (body, tail) :=
      closeQuote?_eq_some_iff.mpr ⟨hbody, rfl⟩
    have hslash : quote ≠ '/' := by
      rcases hquote with rfl | rfl <;> decide
    rw [quotation_text_append, exposed, if_neg (by simp [hslash]), if_neg (by simp [hslash]),
      if_pos hquote]
    split
    · next rest h =>
      rw [hclose] at h
      cases h
      rfl
    · next h =>
      rw [hclose] at h
      cases h

/-- What is left of a source outside comments and quotations are its other pieces. -/
theorem exposed_of_cut (h : Cut text pieces []) : exposed text = pieces.flatMap Piece.exposed := by
  induction h using Cut.end_induction with
  | done => exact exposed_nil
  | next hproper hends _ _ ih => rw [exposed_piece hproper hends, ih, List.flatMap_cons]

/-! ### Braces -/

theorem isMark_singleton {b : Char} {place : Position} :
    (Token.mk .punctuation (String.singleton c) place).isMark b = (c == b) := by
  have hvalue : (String.singleton c == String.singleton b) = (c == b) := by
    rw [Bool.eq_iff_iff, beq_iff_eq, beq_iff_eq, String.singleton_inj]
  exact (Bool.true_and _).trans hvalue

/-- The braces of a piece outside comments and quotations are those among its tokens. -/
theorem count_exposed_piece {b : Char} (hb : b = '{' ∨ b = '}') (hproper : piece.Proper)
    (hends : piece.EndsBefore tail) (place : Position) :
    piece.exposed.count b = (piece.tokens place).countP (·.isMark b) := by
  have hkind {tokens : List Token} (h : ∀ t ∈ tokens, t.kind ≠ .punctuation) :
      tokens.countP (·.isMark b) = 0 :=
    List.countP_eq_zero.mpr fun t ht hmark => by simp [Token.isMark, h t ht] at hmark
  have hnone {p : Char → Bool} {x : List Char} (h : ∀ c ∈ x, p c = true)
      (ho : p '{' = false) (hc : p '}' = false) : x.count b = 0 := by
    refine List.count_eq_zero.mpr fun hmem => ?_
    have := h b hmem
    rcases hb with rfl | rfl
    · simp [ho] at this
    · simp [hc] at this
  -- A brace is a piece of its own: neither what other pieces expose nor their tokens have one.
  cases piece with
  | blank text => exact hnone hproper.2 (by decide) (by decide)
  | lineComment | blockComment => rfl
  | word text =>
    obtain ⟨d, more, rfl, hstart, hpart⟩ := hproper
    have hall : ∀ c ∈ d :: more, isWordPart c = true := by
      intro c hc
      rcases List.mem_cons.mp hc with rfl | hc
      · rw [isWordPart_eq, hstart]
        rfl
      · exact hpart c hc
    exact (hnone hall (by decide) (by decide)).trans
      (hkind (by simp [Piece.tokens])).symm
  | numeral text =>
    have hall : ∀ c ∈ text, (c.isDigit || c == '.') = true := by
      cases hproper with
      | whole _ hall => exact fun c hc => by simp [hall c hc]
      | decimal _ hall _ hall' =>
        intro c hc
        rcases List.mem_append.mp hc with hc | hc
        · simp [hall c hc]
        · rcases List.mem_cons.mp hc with rfl | hc
          · rfl
          · simp [hall' c hc]
    exact (hnone hall (by decide) (by decide)).trans (hkind (by simp [Piece.tokens])).symm
  | quotation quote body => exact (hkind (by simp [Piece.tokens])).symm
  | operators run =>
    have hall : ∀ c ∈ run, (isOperatorChar c || c == '/') = true := fun c hc => by
      simpa using of_mem_takeRun hends hc
    refine (hnone hall (by decide) (by decide)).trans (hkind fun t ht => ?_).symm
    rw [kind_of_mem_operatorTokens ht]
    decide
  | mark c => simp [Piece.exposed, Piece.text, Piece.tokens, isMark_singleton, List.count_cons]

/-- The braces that a review counts are those among the tokens. -/
theorem count_exposed {b : Char} (hb : b = '{' ∨ b = '}') (h : Cut text pieces [])
    (place : Position) :
    (exposed text).count b = (tokensOf place pieces).countP (·.isMark b) := by
  induction h using Cut.end_induction generalizing place with
  | done =>
    rw [exposed_nil]
    rfl
  | next hproper hends _ _ ih =>
    rw [exposed_piece hproper hends, List.count_append, count_exposed_piece hb hproper hends place,
      ih, tokensOf, List.countP_append]

end StepWorld
