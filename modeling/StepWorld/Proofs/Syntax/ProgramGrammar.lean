import StepWorld.Proofs.Syntax.Cutting
import StepWorld.Proofs.Syntax.DeclarationCompleteness
import StepWorld.Proofs.Syntax.ExpressionGrammar

/-! The reader of programs against their grammar. A token list is read without a warning exactly
when the strict grammar derives the program from all of it. Whatever else is read is derived by
the lax grammar, where each warning is the first token of one of the runs passed over. -/

namespace StepWorld

variable {tokens : List Token}

/-- A program is read without a warning exactly if the strict grammar derives it; in every
program that is read, each token is part of a definition or of a run that is reported. -/
theorem programOfTokens_grammar (hs : ShortNumerals tokens) :
    (∀ program, programOfTokens tokens = .ok program ∧ program.warnings = [] ↔
      DerivesProgram false tokens program) ∧
    ∀ program, programOfTokens tokens = .ok program → DerivesProgram true tokens program := by
  refine ⟨fun program => ⟨?_, programOfTokens_of_derivesProgram hs⟩, fun program =>
    derivesProgram_of_programOfTokens⟩
  rintro ⟨hread, hwarnings⟩
  exact (derivesProgram_of_programOfTokens hread).strict hwarnings

/-- An entity with one property. -/
theorem programOfTokens_grammar_entity :
    let tokens : List Token := [⟨.identifier, "Entity", ⟨1, 1⟩⟩, ⟨.identifier, "A", ⟨1, 8⟩⟩,
      ⟨.punctuation, "\x7b", ⟨1, 10⟩⟩, ⟨.identifier, "State", ⟨1, 12⟩⟩,
      ⟨.punctuation, "\x7b", ⟨1, 18⟩⟩, ⟨.identifier, "x", ⟨1, 20⟩⟩, ⟨.punctuation, ":", ⟨1, 21⟩⟩,
      ⟨.identifier, "bool", ⟨1, 23⟩⟩, ⟨.punctuation, "\x7d", ⟨1, 28⟩⟩,
      ⟨.punctuation, "\x7d", ⟨1, 30⟩⟩]
    ShortNumerals tokens ∧
      programOfTokens tokens =
        .ok ⟨[⟨"A", [⟨"x", .scalar .bool⟩], [], 1⟩], [], []⟩ := by
  intro tokens
  have hs : ShortNumerals tokens := by
    unfold ShortNumerals tokens
    decide
  refine ⟨hs, (((programOfTokens_grammar hs).1 _).mpr ?_).1⟩
  have hproperties : DerivesProperties (tokens.drop 5) (tokens.drop 9)
      [⟨"x", .scalar .bool⟩] :=
    .property rfl rfl (.scalar rfl (by decide +kernel)) (.close rfl)
  have hstate : DerivesEntityPart false (tokens.drop 3) (tokens.drop 9)
      ⟨[.state [⟨"x", .scalar .bool⟩]], []⟩ := .state rfl rfl hproperties
  have hentity : DerivesBlock false "Entity" .entity beginsEntityPart (DerivesEntityPart false)
      tokens [] ⟨.identifier, "Entity", ⟨1, 1⟩⟩ "A" ⟨[.state [⟨"x", .scalar .bool⟩]], []⟩ :=
    .block rfl rfl rfl (.part hstate .nil) rfl
  exact .program (.part (.entity hentity) .nil)

def numeralRule (digits : List Char) : List Piece :=
  [.word "Rule".toList, .blank [' '], .word ['r'], .mark '{', .word "effect".toList, .mark ':',
    .numeral digits, .mark '}']

def numeralRuleTokens (digits : List Char) : List Token :=
  [⟨.identifier, "Rule", ⟨1, 1⟩⟩, ⟨.identifier, "r", ⟨1, 6⟩⟩, ⟨.punctuation, "\x7b", ⟨1, 7⟩⟩,
    ⟨.identifier, "effect", ⟨1, 8⟩⟩, ⟨.punctuation, ":", ⟨1, 14⟩⟩,
    ⟨.number, String.ofList digits, ⟨1, 15⟩⟩,
    ⟨.punctuation, "\x7d", (Position.mk 1 15).after digits⟩]

theorem value_of_mem_numeralRuleTokens {digits : List Char} {t : Token}
    (ht : t ∈ numeralRuleTokens digits) (hk : t.kind = .number) :
    t.value = String.ofList digits := by
  simp only [numeralRuleTokens, List.mem_cons, List.not_mem_nil, or_false] at ht
  rcases ht with rfl | rfl | rfl | rfl | rfl | rfl | rfl <;> first | rfl | cases hk

theorem nextPiece_repeated {c : Char} (hc : c.isDigit = true) (n : Nat) (tail : List Char) :
    nextPiece c (List.replicate n c ++ '}' :: tail) =
      .ok (.numeral (List.replicate (n + 1) c), '}' :: tail) := by
  refine nextPiece_eq_ok_iff.mpr ⟨rfl, .whole (by simp) ?_, ?_, ?_⟩
  · intro d hd
    rwa [List.eq_of_mem_replicate hd]
  · intro d hd
    cases hd
    decide
  · intro _ d _ hdot
    simp at hdot

theorem tokenize_numeralRule_zeros (n : Nat) :
    tokenize (String.ofList (spelled (numeralRule (List.replicate (n + 1) '0')))) =
      .ok (numeralRuleTokens (List.replicate (n + 1) '0')) := by
  have hend : Cut (List.replicate (n + 1) '0' ++ ['}'])
      [.numeral (List.replicate (n + 1) '0'), .mark '}'] [] :=
    .next (nextPiece_repeated (by decide) n []) (.next rfl .done)
  have hcut : Cut (spelled (numeralRule (List.replicate (n + 1) '0')))
      (numeralRule (List.replicate (n + 1) '0')) [] := by
    refine .next (c := 'R') rfl (.next (c := ' ') rfl (.next (c := 'r') rfl ?_))
    exact .next (c := '{') rfl (.next (c := 'e') rfl (.next (c := ':') rfl hend))
  unfold tokenize
  rw [String.toList_ofList, tokensFrom_of_cut_nil hcut]
  rfl

theorem derivesProgram_numeralRule {digits : List Char} {n : Int}
    (h : numeralValue (String.ofList digits) = .whole n) :
    DerivesProgram false (numeralRuleTokens digits)
      ⟨[], [⟨"r", none, some (.literal (.int n)), [], []⟩], []⟩ := by
  have hnumber := @Derives.number ⟨.number, String.ofList digits, ⟨1, 15⟩⟩
    ((numeralRuleTokens digits).drop 6) rfl
  rw [h] at hnumber
  have hclause : DerivesRuleClause false ((numeralRuleTokens digits).drop 3)
      ((numeralRuleTokens digits).drop 6) (.effect (.literal (.int n))) :=
    .effect (.clause rfl rfl (hnumber.of_operand 0) nofun)
  have hpart : DerivesPart (DerivesRuleClause false) ((numeralRuleTokens digits).drop 3)
      ((numeralRuleTokens digits).drop 6) ⟨[.effect (.literal (.int n))], []⟩ := .clause hclause
  have hrule : DerivesBlock false "Rule" .rule beginsRuleClause
      (DerivesPart (DerivesRuleClause false)) (numeralRuleTokens digits) []
      ⟨.identifier, "Rule", ⟨1, 1⟩⟩ "r" ⟨[.effect (.literal (.int n))], []⟩ :=
    .block rfl rfl rfl (.part hpart .nil) rfl
  exact .program (.part (.rule hrule) .nil)

theorem Rest.andThen_error {α β ε : Type} {items : List α} {rest : Rest items} {error : ε}
    {read : (part : List α) → Except ε (β × Rest part)} (h : read rest.1 = .error error) :
    rest.andThen read = .error error := by
  obtain ⟨part, hpart⟩ := rest
  unfold Rest.andThen
  dsimp only at h ⊢
  rw [h]

theorem Rest.andThen_ok {α β ε : Type} {items : List α} {rest : Rest items} {b : β}
    {more : Rest rest.1} {read : (part : List α) → Except ε (β × Rest part)}
    (h : read rest.1 = .ok (b, more)) : rest.andThen read = .ok (b, more.within rest.2) := by
  obtain ⟨part, hpart⟩ := rest
  unfold Rest.andThen
  dsimp only at h ⊢
  rw [h]

theorem programOfTokens_numeralRule_of_long {digits : List Char} {error : SourceError}
    (h : numeralNumber (String.ofList digits) = .error error) :
    programOfTokens (numeralRuleTokens digits) = .error error := by
  let tokens := numeralRuleTokens digits
  let finish := endPosition tokens
  have hoperand : readOperand finish (tokens.drop 5) = .error error := by
    change readOperand finish (⟨.number, String.ofList digits, _⟩ :: _) = _
    rw [readOperand]
    dsimp only
    rw [h]
    rfl
  have hexpr : readExpr finish 0 (tokens.drop 5) = .error error := by
    rw [readExpr, hoperand]
    rfl
  have hclause : readRuleClause finish ⟨.identifier, "effect", ⟨1, 8⟩⟩ (tokens.drop 4) =
      .error error := by
    change (readExpr finish 0 (tokens.drop 5) >>= _) = _
    rw [hexpr]
    rfl
  have hbody : readClauses finish (.rule "r") (readRuleClause finish) false (tokens.drop 3) =
      .error error := by
    change readClauses finish _ _ _ (⟨.identifier, "effect", ⟨1, 8⟩⟩ :: tokens.drop 4) = _
    rw [readClauses, hclause]
    rfl
  have hrule : readRule finish (tokens.drop 1) = .error error := by
    have hlength : (tokens.drop 3).length < (tokens.drop 1).length := by
      simp [tokens, numeralRuleTokens]
    let start : Rest (tokens.drop 1) := ⟨tokens.drop 3, hlength⟩
    change (start.andThen (readClauses finish (.rule "r") (readRuleClause finish) false) >>= _) = _
    rw [Rest.andThen_error hbody]
    rfl
  unfold programOfTokens
  change (readDeclarations finish false (⟨.identifier, "Rule", ⟨1, 1⟩⟩ :: tokens.drop 1) >>= _) = _
  rw [readDeclarations, hrule]
  rfl

/-- A rule may have a zero for its effect that is written with so many digits that the strict
grammar has the rule and no reader takes it. -/
theorem zeroRule_derived_not_read :
    ∃ source tokens program, tokenize source = .ok tokens ∧
      (∀ t ∈ tokens, t.kind = .number → (numeralValue t.value).toFloat?.isSome = true) ∧
      DerivesProgram false tokens program ∧
      programOfTokens tokens = .error (.numeral (.longNumeral 4301)) := by
  refine ⟨_, _, _, tokenize_numeralRule_zeros 4300, ?_,
    derivesProgram_numeralRule (numeralValue_zeros _),
    programOfTokens_numeralRule_of_long (numeralNumber_zeros (by decide))⟩
  intro t ht hk
  rw [value_of_mem_numeralRuleTokens ht hk, numeralValue_zeros]
  decide

end StepWorld
