import StepWorld.Proofs.Syntax.ReaderCompleteness

/-! The reader of expressions against their grammar. A token list is read as an expression
exactly when the grammar derives that expression from all of it. -/

namespace StepWorld

variable {tokens : List Token} {e first second : Expr}

theorem exprOfTokens_eq_ok_iff_taken :
    exprOfTokens tokens = .ok e ↔
      taken (readExpr (endPosition tokens) 0 tokens) = some (e, []) := by
  unfold exprOfTokens
  dsimp only
  generalize readExpr (endPosition tokens) 0 tokens = result
  cases result with
  | error => simp [bind, Except.bind, taken]
  | ok result =>
    obtain ⟨expr, rest, h⟩ := result
    cases rest with
    | nil => simp [bind, Except.bind, taken, pure, Except.pure]
    | cons t more => simp [bind, Except.bind, taken, refuse]

theorem derives_of_exprOfTokens (h : exprOfTokens tokens = .ok e) :
    Derives .assignment tokens [] e :=
  (readExpr_sound (exprOfTokens_eq_ok_iff_taken.mp h)).1

theorem exprOfTokens_of_derives (hs : ShortNumerals tokens)
    (h : Derives .assignment tokens [] e) : exprOfTokens tokens = .ok e := by
  have hread : Completes (endPosition tokens) .assignment tokens [] e := (h.completes hs).1
  rw [exprOfTokens_eq_ok_iff_taken]
  exact hread.read (Nat.zero_le _) (by simp [Stops]) (by simp [Ends]) (by simp [Stops])

/-- The grammar is unambiguous. -/
theorem Derives.unique (hs : ShortNumerals tokens) (hf : Derives .assignment tokens [] first)
    (hsec : Derives .assignment tokens [] second) : first = second := by
  have h := (exprOfTokens_of_derives hs hf).symm.trans (exprOfTokens_of_derives hs hsec)
  exact Except.ok.inj h

/-- Reading by powers accepts exactly the layered grammar and builds its trees. -/
theorem exprOfTokens_eq_ok_iff_derives
    (hs : ShortNumerals tokens) :
    exprOfTokens tokens = .ok e ↔ Derives .assignment tokens [] e :=
  ⟨derives_of_exprOfTokens, exprOfTokens_of_derives hs⟩

/-- Differences group to the left. -/
theorem exprOfTokens_differences :
    let tokens : List Token := [⟨.identifier, "a", .start⟩, ⟨.operator, "-", .start⟩,
      ⟨.number, "1", .start⟩, ⟨.operator, "-", .start⟩, ⟨.number, "2", .start⟩]
    ShortNumerals tokens ∧
      exprOfTokens tokens =
        .ok (.binary "-" (.binary "-" (.identifier "a") (.literal (.int 1)))
          (.literal (.int 2))) := by
  intro tokens
  have hs : ShortNumerals tokens := by
    unfold ShortNumerals tokens
    decide
  refine ⟨hs, (exprOfTokens_eq_ok_iff_derives hs).mpr ?_⟩
  have hsum : Category.sum.fits 0 := by decide
  refine Derives.lift (p := 0) hsum (.chain (t := ⟨.operator, "-", .start⟩) (c := .sum) ?_ rfl
    (by decide) rfl ((@Derives.number ⟨.number, "2", .start⟩ [] rfl).of_operand 60))
  refine .chain (t := ⟨.operator, "-", .start⟩) (c := .sum) ?_ rfl (by decide) rfl
    ((@Derives.number ⟨.number, "1", .start⟩ _ rfl).of_operand 60)
  exact (@Derives.identifier ⟨.identifier, "a", .start⟩ _ rfl rfl).of_operand 50

theorem exprOfTokens_of_long {t : Token} {rest : List Token} {error : SourceError}
    (hk : t.kind = .number) (h : numeralNumber t.value = .error error) :
    exprOfTokens (t :: rest) = .error error := by
  have hoperand : readOperand (endPosition (t :: rest)) (t :: rest) = .error error := by
    rw [readOperand, hk, h]
    rfl
  have hexpr : readExpr (endPosition (t :: rest)) 0 (t :: rest) = .error error := by
    rw [readExpr.eq_def, hoperand]
    rfl
  unfold exprOfTokens
  dsimp only
  rw [hexpr]
  rfl

theorem digitsValue_zeros (n : Nat) :
    digitsValue ((List.replicate n '0').map fun c => c.toNat - '0'.toNat) = 0 := by
  induction n with
  | zero => rfl
  | succ n ih => simpa [digitsValue, List.replicate_succ] using ih

theorem tokenize_zeros (n : Nat) :
    tokenize (String.ofList (List.replicate (n + 1) '0')) =
      .ok [⟨.number, String.ofList (List.replicate (n + 1) '0'), .start⟩] := by
  have hnumeral : takeNumeral ('0' :: List.replicate n '0') =
      (List.replicate (n + 1) '0', []) := by
    rw [← List.replicate_succ]
    simp [takeNumeral]
  have hpiece : nextPiece '0' (List.replicate n '0') =
      .ok (.numeral (List.replicate (n + 1) '0'), []) := by
    unfold nextPiece
    rw [hnumeral]
    rfl
  unfold tokenize
  rw [String.toList_ofList, List.replicate_succ]
  unfold tokensFrom
  split
  · next h => simp [hpiece] at h
  · next h =>
    rw [hpiece] at h
    cases h
    simp [tokensFrom, Piece.tokens, List.replicate_succ, bind, Except.bind, pure, Except.pure]

theorem numeralValue_zeros (n : Nat) :
    numeralValue (String.ofList (List.replicate n '0')) = .whole 0 := by
  have h := digitsValue_zeros n
  simpa [numeralValue] using h

theorem numeralNumber_zeros {n : Nat} (h : digitLimit < n) :
    numeralNumber (String.ofList (List.replicate n '0')) = .error (.numeral (.longNumeral n)) := by
  simp [numeralNumber, h]

/-- A zero may be written with so many digits that the grammar has it and no reader takes it. -/
theorem zeros_derived_not_read :
    ∃ tokens, tokenize (String.ofList (List.replicate 4301 '0')) = .ok tokens ∧
      (∀ t ∈ tokens, t.kind = .number → (numeralValue t.value).toFloat?.isSome = true) ∧
      Derives .assignment tokens [] (.literal (.int 0)) ∧
      exprOfTokens tokens = .error (.numeral (.longNumeral 4301)) := by
  refine ⟨_, tokenize_zeros 4300, ?_, ?_, ?_⟩
  · intro t ht _
    rw [List.mem_singleton.mp ht, numeralValue_zeros]
    decide
  · have hn := @Derives.number ⟨.number, String.ofList (List.replicate 4301 '0'), .start⟩ [] rfl
    rw [numeralValue_zeros] at hn
    exact hn.of_operand 0
  · exact exprOfTokens_of_long rfl (numeralNumber_zeros (by decide))

end StepWorld
