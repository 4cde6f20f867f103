import StepWorld.Proofs.Syntax.Tiling

/-! A text behind another one, with a line end between them. The line end ends every piece, so the
tokens of both stand side by side, those of the second text further down. -/

namespace StepWorld

variable {text more tail run blanks : List Char} {piece : Piece} {pieces : List Piece}

/-! ### Places further down -/

def Position.down (n : Nat) (p : Position) : Position := ⟨p.line + n, p.column⟩

def Token.down (n : Nat) (t : Token) : Token := { t with position := t.position.down n }

@[simp] theorem Token.down_kind (n : Nat) (t : Token) : (t.down n).kind = t.kind := rfl

@[simp] theorem Token.down_value (n : Nat) (t : Token) : (t.down n).value = t.value := rfl

@[simp] theorem Token.down_zero (t : Token) : t.down 0 = t := rfl

theorem Position.next_down (n : Nat) (p : Position) (c : Char) :
    (p.down n).next c = (p.next c).down n := by
  by_cases hc : c = '\n'
  · simp only [Position.next, hc, if_true, Position.down]
    rw [Nat.add_right_comm]
  · simp only [Position.next, hc, if_false, Position.down]

theorem Position.after_down (n : Nat) (p : Position) (text : List Char) :
    (p.down n).after text = (p.after text).down n := by
  induction text generalizing p with
  | nil => rfl
  | cons c text ih =>
    change ((p.down n).next c).after text = _
    rw [Position.next_down, ih]
    rfl

theorem operatorTokens_down (n : Nat) (p : Position) (ops : List (List Char)) :
    operatorTokens (p.down n) ops = (operatorTokens p ops).map (Token.down n) := by
  induction ops generalizing p with
  | nil => rfl
  | cons op ops ih =>
    rw [operatorTokens, Position.after_down, ih]
    rfl

theorem Piece.tokens_down (n : Nat) (p : Position) (piece : Piece) :
    piece.tokens (p.down n) = (piece.tokens p).map (Token.down n) := by
  cases piece with
  | operators run => exact operatorTokens_down n p (splitRun run)
  | _ => rfl

theorem tokensOf_down (n : Nat) (p : Position) (pieces : List Piece) :
    tokensOf (p.down n) pieces = (tokensOf p pieces).map (Token.down n) := by
  induction pieces generalizing p with
  | nil => rfl
  | cons piece pieces ih =>
    rw [tokensOf, Piece.tokens_down, Position.after_down, ih, tokensOf, List.map_append]

/-! ### The seam -/

theorem tokensFrom_dropBlanks (place : Position) (text : List Char) :
    tokensFrom place text =
      tokensFrom (place.after (text.takeWhile isBlank)) (text.dropWhile isBlank) := by
  cases text with
  | nil => rfl
  | cons c rest =>
    by_cases hc : isBlank c = true
    · have hpiece : nextPiece c rest =
          .ok (.blank (c :: rest.takeWhile isBlank), rest.dropWhile isBlank) := if_pos hc
      rw [tokensFrom_of_piece hpiece, List.takeWhile_cons_of_pos hc, List.dropWhile_cons_of_pos hc]
      change (tokensFrom (place.after (c :: rest.takeWhile isBlank)) _).map ([] ++ ·) = _
      cases tokensFrom (place.after (c :: rest.takeWhile isBlank)) (rest.dropWhile isBlank) <;> rfl
    · rw [List.takeWhile_cons_of_neg hc, List.dropWhile_cons_of_neg hc]
      rfl

theorem tokensFrom_blanks (h : ∀ c ∈ blanks, isBlank c = true) (place : Position)
    (text : List Char) :
    tokensFrom place (blanks ++ text) = tokensFrom (place.after blanks) text := by
  rw [tokensFrom_dropBlanks, List.takeWhile_append_of_pos h, List.dropWhile_append_of_pos h,
    Position.after_append, ← tokensFrom_dropBlanks]

theorem takeRun_of_longer (h : takeRun (run ++ tail) = (run, tail)) :
    takeRun (run ++ (tail ++ '\n' :: more)) = (run, tail ++ '\n' :: more) := by
  induction run with
  | nil =>
    cases tail with
    | nil => exact takeRun_of_stops (by decide) fun heq => absurd heq (by decide)
    | cons c rest =>
      obtain ⟨hc, hslash⟩ := takeRun_stops h
      refine takeRun_of_stops hc fun heq => ?_
      cases rest with
      | nil => exact absurd (hslash heq) (by decide)
      | cons d rest => exact hslash heq
  | cons c run ih =>
    obtain ⟨hc, hrest⟩ := takeRun_cons h
    refine takeRun_of_cons (hc.imp_right fun ⟨hslash, hopen⟩ => ⟨hslash, ?_⟩) (ih hrest)
    cases run with
    | cons d run => exact hopen
    | nil =>
      cases tail with
      | nil => rfl
      | cons d tail => exact hopen

theorem Piece.EndsBefore.of_longer (h : piece.EndsBefore tail)
    (hblank : ∀ blanks, piece ≠ .blank blanks) :
    piece.EndsBefore (tail ++ '\n' :: more) := by
  have hhead (p : Char → Prop) (hp : ∀ c ∈ tail.head?, p c) (hline : p '\n') :
      ∀ c ∈ (tail ++ '\n' :: more).head?, p c := by
    cases tail with
    | nil => exact fun c hc => Option.some.inj hc ▸ hline
    | cons d tail => exact hp
  cases piece with
  | blank text => exact absurd rfl (hblank text)
  | lineComment text => exact hhead _ h rfl
  | word text => exact hhead _ h rfl
  | numeral text =>
    refine ⟨hhead _ h.1 rfl, fun hpoint d hd hdot => ?_⟩
    cases tail with
    | nil => exact absurd (Option.some.inj hdot) (by decide)
    | cons c tail =>
      cases tail with
      | nil =>
        cases hd
        rfl
      | cons d' tail => exact h.2 hpoint d hd hdot
  | operators run => exact takeRun_of_longer h
  | blockComment _ | quotation _ _ | mark _ => trivial

theorem tokensFrom_seam (h : Cut text pieces []) (place : Position) :
    tokensFrom place (text ++ '\n' :: more) =
      (tokensFrom (place.after (text ++ ['\n'])) more).map (tokensOf place pieces ++ ·) := by
  induction h using Cut.end_induction generalizing place with
  | done =>
    have hline : tokensFrom place (['\n'] ++ more) = tokensFrom (place.after ['\n']) more :=
      tokensFrom_blanks (List.forall_mem_singleton.mpr (by decide)) place more
    change tokensFrom place (['\n'] ++ more) = _
    rw [hline]
    change _ = (tokensFrom (place.after ['\n']) more).map ([] ++ ·)
    cases tokensFrom (place.after ['\n']) more <;> rfl
  | @next piece tail pieces hproper hends hne hcut ih =>
    have hstep : tokensFrom place (piece.text ++ (tail ++ '\n' :: more)) =
        (tokensFrom (place.after piece.text) (tail ++ '\n' :: more)).map
          (piece.tokens place ++ ·) := by
      -- Blanks at the end of the first text go on in the second one, but yield no token.
      by_cases hblank : ∃ blanks, piece = .blank blanks
      · obtain ⟨blanks, rfl⟩ := hblank
        rw [show Piece.text (.blank blanks) = blanks from rfl, tokensFrom_blanks hproper.2]
        change _ = (tokensFrom (place.after blanks) (tail ++ '\n' :: more)).map ([] ++ ·)
        cases tokensFrom (place.after blanks) (tail ++ '\n' :: more) <;> rfl
      · obtain ⟨c, inner, hinner⟩ := List.exists_cons_of_ne_nil hne
        have hlonger : piece.EndsBefore (tail ++ '\n' :: more) :=
          hends.of_longer fun blanks heq => hblank ⟨blanks, heq⟩
        have hpiece : nextPiece c (inner ++ (tail ++ '\n' :: more)) =
            .ok (piece, tail ++ '\n' :: more) :=
          nextPiece_of_proper (by rw [hinner]; rfl) hproper hlonger
        rw [hinner, List.cons_append, tokensFrom_of_piece hpiece, hinner]
    rw [List.append_assoc, hstep, ih, List.append_assoc, Position.after_append place piece.text]
    cases tokensFrom ((place.after piece.text).after (tail ++ ['\n'])) more with
    | error e => rfl
    | ok tokens => exact congrArg Except.ok (List.append_assoc _ _ _).symm

/-- The tokens of two texts with a line end between are those of both, those of the second text as
many lines further down as there are up to its first one. -/
theorem tokenize_seam {first second : String} {ts us : List Token} (h : tokenize first = .ok ts)
    (h' : tokenize second = .ok us) :
    tokenize (first ++ "\n" ++ second) =
      .ok (ts ++ us.map (Token.down (1 + first.toList.count '\n'))) := by
  obtain ⟨pieces, hcut, rfl⟩ := tokensFrom_eq_ok_iff.mp h
  obtain ⟨pieces', hcut', rfl⟩ := tokensFrom_eq_ok_iff.mp h'
  have htext : (first ++ "\n" ++ second).toList = first.toList ++ '\n' :: second.toList := by
    simp
  have hplace : Position.start.after (first.toList ++ ['\n']) =
      Position.start.down (1 + first.toList.count '\n') := by
    rw [Position.start_after, Position.behind_concat]
    change Position.mk (1 + first.toList.count '\n' + 1) 1 = ⟨1 + (1 + _), 1⟩
    rw [Nat.add_comm 1 (1 + _)]
  rw [tokenize, htext, tokensFrom_seam hcut, hplace, tokensFrom_of_cut_nil hcut', tokensOf_down]
  rfl

end StepWorld
