import StepWorld.Proofs.Syntax.Pieces

/-! Cutting a text into pieces from the left. The tokens of a text are those of its pieces, and a
text that is broken off between two pieces is cut into the same pieces. -/

namespace StepWorld

variable {c : Char} {text rest tail shorter : List Char} {piece : Piece} {pieces : List Piece}

/-- `Cut text pieces rest`: the pieces are cut off a text one after the other, and `rest` is left. -/
inductive Cut : List Char → List Piece → List Char → Prop
  | done {rest : List Char} : Cut rest [] rest
  | next {c : Char} {more tail rest : List Char} {piece : Piece} {pieces : List Piece} :
      nextPiece c more = .ok (piece, tail) → Cut tail pieces rest →
        Cut (c :: more) (piece :: pieces) rest

def spelled (pieces : List Piece) : List Char := pieces.flatMap Piece.text

@[simp] theorem spelled_nil : spelled [] = [] := rfl

@[simp] theorem spelled_cons : spelled (piece :: pieces) = piece.text ++ spelled pieces := rfl

theorem Cut.spelled (h : Cut text pieces rest) : spelled pieces ++ rest = text := by
  induction h with
  | done => rfl
  | next hpiece _ ih => rw [spelled_cons, List.append_assoc, ih, nextPiece_append hpiece]

/-- Induction on a text that is cut up to its end, one proper piece after the other. -/
@[elab_as_elim] theorem Cut.end_induction
    {motive : (text : List Char) → (pieces : List Piece) → Cut text pieces [] → Prop}
    (done : motive [] [] .done)
    (next : ∀ {piece : Piece} {tail : List Char} {pieces : List Piece} (_ : piece.Proper)
      (_ : piece.EndsBefore tail) (_ : piece.text ≠ []) (hcut : Cut tail pieces []),
      motive tail pieces hcut → ∀ h, motive (piece.text ++ tail) (piece :: pieces) h)
    {text : List Char} {pieces : List Piece} (h : Cut text pieces []) : motive text pieces h := by
  induction pieces generalizing text with
  | nil =>
    cases h
    exact done
  | cons piece pieces ih =>
    cases h with
    | next hpiece hcut =>
      obtain ⟨htext, hproper, hends⟩ := nextPiece_eq_ok_iff.mp hpiece
      have hstep := next hproper hends (nextPiece_text_ne_nil hpiece) hcut (ih hcut)
      rw [htext] at hstep
      exact hstep _

theorem exists_cut (text : List Char) : ∃ pieces rest, Cut text pieces rest ∧
    (rest = [] ∨ ∃ c more cause, rest = c :: more ∧ nextPiece c more = .error cause) := by
  induction hlength : text.length using Nat.strongRecOn generalizing text with
  | _ n ih =>
    cases text with
    | nil => exact ⟨[], [], .done, .inl rfl⟩
    | cons c more =>
      cases hpiece : nextPiece c more with
      | error cause => exact ⟨[], c :: more, .done, .inr ⟨c, more, cause, rfl, hpiece⟩⟩
      | ok found =>
        obtain ⟨piece, tail⟩ := found
        obtain ⟨pieces, rest, hcut, hrest⟩ :=
          ih tail.length (hlength ▸ nextPiece_shorter hpiece) tail rfl
        exact ⟨piece :: pieces, rest, .next hpiece hcut, hrest⟩

theorem spelled_append (pieces more : List Piece) :
    spelled (pieces ++ more) = spelled pieces ++ spelled more :=
  List.flatMap_append

theorem Cut.split {more : List Piece} (h : Cut text (pieces ++ more) rest) :
    ∃ mid, Cut text pieces mid ∧ Cut mid more rest := by
  induction pieces generalizing text with
  | nil => exact ⟨text, .done, h⟩
  | cons piece pieces ih =>
    cases h with
    | next hpiece hcut =>
      obtain ⟨mid, hpieces, hmore⟩ := ih hcut
      exact ⟨mid, .next hpiece hpieces, hmore⟩

/-! ### Breaking a text off between two pieces -/

theorem mem_head?_of_shorter (hpre : shorter <+: text) (h : c ∈ shorter.head?) : c ∈ text.head? := by
  obtain ⟨more, rfl⟩ := hpre
  obtain ⟨tail, rfl⟩ := List.head?_eq_some_iff.mp h
  exact rfl

theorem Piece.EndsBefore.of_shorter (h : piece.EndsBefore tail) (hpre : shorter <+: tail)
    (hstop : takeRun tail = ([], tail) → takeRun shorter = ([], shorter)) :
    piece.EndsBefore shorter := by
  cases piece with
  | blank _ | lineComment _ | word _ => exact fun d hd => h d (mem_head?_of_shorter hpre hd)
  | numeral text =>
    refine ⟨fun d hd => h.1 d (mem_head?_of_shorter hpre hd), fun hpoint d hd hdot => ?_⟩
    refine h.2 hpoint d ?_ (mem_head?_of_shorter hpre hdot)
    obtain ⟨more, rfl⟩ := List.head?_eq_some_iff.mp hdot
    obtain ⟨left, rfl⟩ := hpre
    exact mem_head?_of_shorter (List.prefix_append _ _) hd
  | operators run => exact takeRun_of_shorter h hpre hstop
  | blockComment _ | quotation _ _ | mark _ => trivial

theorem comment_text (h : nextPiece '/' rest = .ok (piece, tail)) (hopen : opensComment rest = true) :
    ∃ inner, piece.text = '/' :: inner ∧ opensComment inner = true := by
  rcases head_of_opensComment hopen with hhead | hhead
  all_goals
    obtain ⟨more, rfl⟩ := List.head?_eq_some_iff.mp hhead
    unfold nextPiece at h
  · rw [if_neg (by decide), if_pos ⟨rfl, rfl⟩] at h
    cases h
    exact ⟨_, rfl, rfl⟩
  · rw [if_neg (by decide), if_neg (by simp), if_pos ⟨rfl, rfl⟩] at h
    split at h
    · cases h
      exact ⟨_, rfl, rfl⟩
    · cases h

theorem Cut.stops (h : Cut text pieces rest) (hstop : takeRun text = ([], text)) :
    takeRun (StepWorld.spelled pieces) = ([], StepWorld.spelled pieces) := by
  cases h with
  | done => rfl
  | @next c more tail rest piece pieces hpiece hcut =>
    obtain ⟨hc, hslash⟩ := takeRun_stops hstop
    obtain ⟨inner, hinner⟩ : ∃ inner, piece.text = c :: inner := by
      obtain ⟨d, inner, hinner⟩ := List.exists_cons_of_ne_nil (nextPiece_text_ne_nil hpiece)
      have happend := nextPiece_append hpiece
      rw [hinner] at happend
      obtain ⟨rfl, -⟩ := List.cons.inj happend
      exact ⟨inner, hinner⟩
    rw [spelled_cons, hinner, List.cons_append]
    refine takeRun_of_stops hc fun heq => ?_
    subst heq
    obtain ⟨inner', hinner', hopen⟩ := comment_text hpiece (hslash rfl)
    obtain ⟨-, rfl⟩ := List.cons.inj (hinner.symm.trans hinner')
    cases inner with
    | nil => cases hopen
    | cons d inner => exact hopen

theorem Cut.of_spelled (h : Cut text pieces rest) :
    Cut (StepWorld.spelled pieces) pieces [] := by
  induction h with
  | done => exact .done
  | @next c more tail rest piece pieces hpiece hcut ih =>
    obtain ⟨happend, hproper, hends⟩ := nextPiece_eq_ok_iff.mp hpiece
    obtain ⟨d, inner, hinner⟩ := List.exists_cons_of_ne_nil (nextPiece_text_ne_nil hpiece)
    have hends' : piece.EndsBefore (StepWorld.spelled pieces) :=
      hends.of_shorter ⟨rest, hcut.spelled⟩ hcut.stops
    rw [spelled_cons, hinner, List.cons_append]
    refine .next (nextPiece_eq_ok_iff.mpr ⟨?_, hproper, hends'⟩) ih
    rw [hinner, List.cons_append]

/-! ### The tokens of a cut text -/

theorem kind_of_mem_operatorTokens {t : Token} {place : Position} {ops : List (List Char)}
    (h : t ∈ operatorTokens place ops) : t.kind = .operator := by
  induction ops generalizing place with
  | nil => cases h
  | cons op ops ih =>
    rcases List.mem_cons.mp h with rfl | h
    · rfl
    · exact ih h

theorem values_operatorTokens (place : Position) (ops : List (List Char)) :
    (operatorTokens place ops).map (·.value.toList) = ops := by
  induction ops generalizing place with
  | nil => rfl
  | cons op ops ih => simp [operatorTokens, ih]

theorem value_mem_of_mem_operatorTokens {t : Token} {place : Position} {ops : List (List Char)}
    (h : t ∈ operatorTokens place ops) : t.value.toList ∈ ops := by
  rw [← values_operatorTokens place ops]
  exact List.mem_map_of_mem h

def tokensOf (place : Position) : List Piece → List Token
  | [] => []
  | piece :: rest => piece.tokens place ++ tokensOf (place.after piece.text) rest

theorem tokensOf_append (pieces more : List Piece) (place : Position) :
    tokensOf place (pieces ++ more) =
      tokensOf place pieces ++ tokensOf (place.after (spelled pieces)) more := by
  induction pieces generalizing place with
  | nil => rfl
  | cons piece pieces ih =>
    rw [List.cons_append, tokensOf, ih, tokensOf, spelled_cons, Position.after_append,
      List.append_assoc]

theorem tokensFrom_of_error {cause : LexicalCause} (h : nextPiece c rest = .error cause)
    (place : Position) : tokensFrom place (c :: rest) = .error ⟨cause, c, place⟩ := by
  unfold tokensFrom
  split
  · next cause' h' =>
    cases h.symm.trans h'
    rfl
  · next h' => cases h.symm.trans h'

theorem tokensFrom_of_piece (h : nextPiece c rest = .ok (piece, tail)) (place : Position) :
    tokensFrom place (c :: rest) =
      (tokensFrom (place.after piece.text) tail).map (piece.tokens place ++ ·) := by
  rw [tokensFrom]
  split
  · next h' => cases h.symm.trans h'
  · next piece' tail' h' =>
    cases h.symm.trans h'
    rfl

theorem tokensFrom_of_cut (h : Cut text pieces rest) (place : Position) :
    tokensFrom place text =
      (tokensFrom (place.after (spelled pieces)) rest).map (tokensOf place pieces ++ ·) := by
  induction h generalizing place with
  | @done rest =>
    change _ = (tokensFrom place rest).map ([] ++ ·)
    cases tokensFrom place rest <;> rfl
  | @next c more tail rest piece pieces hpiece _ ih =>
    rw [tokensFrom_of_piece hpiece, ih, spelled_cons, Position.after_append]
    cases tokensFrom ((place.after piece.text).after (spelled pieces)) rest with
    | error e => rfl
    | ok tokens => exact congrArg Except.ok (List.append_assoc _ _ _).symm

theorem tokensFrom_of_cut_nil (h : Cut text pieces []) (place : Position) :
    tokensFrom place text = .ok (tokensOf place pieces) := by
  rw [tokensFrom_of_cut h, tokensFrom]
  exact congrArg Except.ok (List.append_nil _)

/-- A text yields tokens exactly if it is cut up to its end. -/
theorem tokensFrom_eq_ok_iff {place : Position} {tokens : List Token} :
    tokensFrom place text = .ok tokens ↔ ∃ pieces, Cut text pieces [] ∧
      tokens = tokensOf place pieces := by
  constructor
  · intro h
    obtain ⟨pieces, rest, hcut, rfl | ⟨c, more, cause, rfl, herror⟩⟩ := exists_cut text
    · exact ⟨pieces, hcut, Except.ok.inj (h.symm.trans (tokensFrom_of_cut_nil hcut place))⟩
    · rw [tokensFrom_of_cut hcut, tokensFrom_of_error herror] at h
      cases h
  · rintro ⟨pieces, hcut, rfl⟩
    exact tokensFrom_of_cut_nil hcut place

theorem tokensFrom_eq_error {place : Position} {e : LexicalError}
    (h : tokensFrom place text = .error e) : ∃ pieces more, Cut text pieces (e.char :: more) ∧
      e.position = place.after (spelled pieces) ∧ nextPiece e.char more = .error e.cause := by
  obtain ⟨pieces, rest, hcut, rfl | ⟨c, more, cause, rfl, herror⟩⟩ := exists_cut text
  · cases h.symm.trans (tokensFrom_of_cut_nil hcut place)
  · rw [tokensFrom_of_cut hcut, tokensFrom_of_error herror] at h
    cases h
    exact ⟨pieces, more, hcut, rfl, herror⟩

end StepWorld
