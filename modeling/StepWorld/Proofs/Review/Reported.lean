import StepWorld.Engine.Specifications
import StepWorld.Proofs.Review.Words
import StepWorld.Proofs.Syntax.DeclarationFaults
import StepWorld.Proofs.Syntax.ProgramGrammar

/-! Who hands in a source or a text is told what is wrong with its syntax. Only numbers that cannot
be converted stop a review, a registration or the evaluation of a text. -/

namespace StepWorld

variable {source : String} {fault : Fault}

/-- All numbers in a source can be converted. A source that is not cut into tokens has none. -/
def Convertible (source : String) : Prop :=
  ∀ ts ∈ (tokenize source).toOption, ShortNumerals ts ∧ ¬ Overflows ts

instance (source : String) : Decidable (Convertible source) :=
  match h : (tokenize source).toOption with
  | some ts => decidable_of_iff (ShortNumerals ts ∧ ¬ Overflows ts) (by simp [Convertible, h])
  | none => .isTrue (by simp [Convertible, h])

theorem Convertible.not_blames (h : Convertible source) {ts : List Token}
    (hts : tokenize source = .ok ts) : ¬ Blames ts fault := by
  obtain ⟨hshort, hoverflows⟩ := h ts (by rw [hts]; rfl)
  cases fault with
  | longNumeral => exact fun hlong => hlong hshort
  | intBeyondFloats => exact hoverflows
  | quotientBeyondFloats | infinityToInt | nanToInt | remainderUndefined | longInteger => exact id

theorem Convertible.ne_numeral {α : Type} {result : Except SourceError α} (h : Convertible source)
    (hcut : ∀ e, tokenize source = .error e → result = .error (.lexical e))
    (hread : ∀ ts, tokenize source = .ok ts → Answers (endPosition ts) ts (fun _ => True) result) :
    result ≠ .error (.numeral fault) := by
  rintro rfl
  cases hts : tokenize source with
  | error e => cases hcut e hts
  | ok ts => exact h.not_blames hts (hread ts hts)

theorem readProgram_ne_numeral (h : Convertible source) :
    readProgram source ≠ .error (.numeral fault) := by
  refine h.ne_numeral (fun e he => ?_) fun ts hts => ?_
  · rw [readProgram, he]
  · rw [readProgram, hts]
    exact answers_programOfTokens ts

theorem readExpression_ne_numeral (h : Convertible source) :
    readExpression source ≠ .error (.numeral fault) := by
  refine h.ne_numeral (fun e he => ?_) fun ts hts => ?_
  · rw [readExpression, he]
  · rw [readExpression, hts]
    exact answers_exprOfTokens ts

theorem exists_review (h : Convertible source) : ∃ report, review source = .ok report := by
  have hearly {c : Prop} [Decidable c] {early : Report} {late : Except SourceError Report}
      (hlate : ∃ report, late = .ok report) :
      ∃ report, (if c then .ok early else late) = .ok report := by
    split
    · exact ⟨early, rfl⟩
    · exact hlate
  unfold review
  refine hearly (hearly ?_)
  split
  · exact ⟨_, rfl⟩
  · exact ⟨_, rfl⟩
  · exact ⟨_, rfl⟩
  · next hread => exact absurd hread (readProgram_ne_numeral h)

theorem registrable_cases (h : Convertible source) : (∃ p, registrable source = .ok p) ∨
    ∃ problems, problems ≠ [] ∧ registrable source = .error (.problems problems) := by
  unfold registrable
  split
  · exact .inr ⟨_, List.cons_ne_nil _ _, rfl⟩
  · exact .inr ⟨_, List.cons_ne_nil _ _, rfl⟩
  · next hread => exact absurd hread (readProgram_ne_numeral h)
  · split
    · exact .inl ⟨_, rfl⟩
    · next problems hproblems => exact .inr ⟨_, hproblems, rfl⟩

theorem exprOfText?_of_unread (h : Convertible source)
    (hunread : ∀ e, readExpression source ≠ .ok e) : exprOfText? source = .ok none := by
  unfold exprOfText?
  split
  · next e hread => exact absurd hread (hunread e)
  · next hread => exact absurd hread (readExpression_ne_numeral h)
  · rfl

/-- Where all numbers can be converted: a source gives a program or a fault of syntax; its review is
a report; its registration gives a specification of it or names what is wrong; and a text that is no
expression stands for itself as a value, does not hold as a condition, and draws nothing. -/
theorem syntax_problems_are_reported (h : Convertible source) :
    ((∃ p, readProgram source = .ok p) ∨ (∃ e, readProgram source = .error (.lexical e)) ∨
      ∃ e, readProgram source = .error (.structural e)) ∧
    (∃ report, review source = .ok report) ∧
    (∀ (e : Engine) (name description : Option String),
      (∃ id s, (e.register source name description).1 = .ok id ∧
        (e.register source name description).2.specifications.get? id = some s ∧
        s.source = source) ∨
      ∃ problems, problems ≠ [] ∧
        (e.register source name description).1 = .error (.problems problems)) ∧
    ((∀ e, readExpression source ≠ .ok e) →
      ∀ (placeholder : Value) (b : Bindings) (chance : Chance),
        (evaluateText placeholder b source).run.run chance = (.ok (.str source), chance) ∧
        (textHolds placeholder b source).run.run chance = (.ok false, chance)) := by
  refine ⟨?_, exists_review h, fun e name description => ?_, fun hunread placeholder b chance => ?_⟩
  · match hread : readProgram source with
    | .ok p => exact .inl ⟨p, rfl⟩
    | .error (.lexical e) => exact .inr (.inl ⟨e, rfl⟩)
    | .error (.structural e) => exact .inr (.inr ⟨e, rfl⟩)
    | .error (.numeral _) => exact absurd hread (readProgram_ne_numeral h)
  · rcases registrable_cases h with ⟨p, hp⟩ | ⟨problems, hproblems, hrefused⟩
    · left
      rw [Engine.register, hp]
      exact ⟨_, _, rfl, (Table.get?_put _ _ _ _).trans (if_pos rfl), rfl⟩
    · right
      simp only [Engine.register, hrefused]
      exact ⟨problems, hproblems, rfl⟩
  · have htext := exprOfText?_of_unread h hunread
    unfold evaluateText textHolds
    rw [htext]
    exact ⟨rfl, rfl⟩

@[irreducible] def lottery : String :=
  "Entity Ticket { State { won: bool } Event draw { P[Self.won = true] = 1 } }
    Rule luck { P[Ticket.won] >= -2.5 }"

theorem convertible_lottery : Convertible lottery := by decide +kernel

/-- A program is read and reviewed; as a text it is no expression and stands for itself. -/
theorem syntax_problems_are_reported_lottery :
    (∃ p, readProgram lottery = .ok p) ∧ (∃ report, review lottery = .ok report) ∧
      ∀ (placeholder : Value) (b : Bindings) (chance : Chance),
        (evaluateText placeholder b lottery).run.run chance = (.ok (.str lottery), chance) := by
  obtain ⟨hread, hreview, -, htext⟩ := syntax_problems_are_reported convertible_lottery
  have hok : (readProgram lottery).isOk = true ∧ (readExpression lottery).isOk = false := by
    decide +kernel
  have hunread (e) : readExpression lottery ≠ .ok e := by
    intro he
    rw [he] at hok
    cases hok.2
  refine ⟨?_, hreview, fun placeholder b chance => (htext hunread placeholder b chance).1⟩
  rcases hread with hp | ⟨e, he⟩ | ⟨e, he⟩
  · exact hp
  · rw [he] at hok
    cases hok.1
  · rw [he] at hok
    cases hok.1

/-! ### Weights beyond the floats -/

def weightedEvent (digits : List Char) : List Piece :=
  [.word "Entity".toList, .blank [' '], .word ['A'], .mark '{', .word "Event".toList, .blank [' '],
    .word ['e'], .mark '{', .word ['P'], .mark '[', .word ['x'], .mark ']', .operators ['='],
    .numeral digits, .mark '}', .mark '}']

def weightedEventTokens (digits : List Char) : List Token :=
  let behind : Position := (Position.mk 1 23).after digits
  [⟨.identifier, "Entity", ⟨1, 1⟩⟩, ⟨.identifier, "A", ⟨1, 8⟩⟩, ⟨.punctuation, "\x7b", ⟨1, 9⟩⟩,
    ⟨.identifier, "Event", ⟨1, 10⟩⟩, ⟨.identifier, "e", ⟨1, 16⟩⟩, ⟨.punctuation, "\x7b", ⟨1, 17⟩⟩,
    ⟨.identifier, "P", ⟨1, 18⟩⟩, ⟨.punctuation, "[", ⟨1, 19⟩⟩, ⟨.identifier, "x", ⟨1, 20⟩⟩,
    ⟨.punctuation, "]", ⟨1, 21⟩⟩, ⟨.operator, "=", ⟨1, 22⟩⟩,
    ⟨.number, String.ofList digits, ⟨1, 23⟩⟩, ⟨.punctuation, "\x7d", behind⟩,
    ⟨.punctuation, "\x7d", behind.after ['}']⟩]

theorem tokenize_weightedEvent_nines (n : Nat) :
    tokenize (String.ofList (spelled (weightedEvent (List.replicate (n + 1) '9')))) =
      .ok (weightedEventTokens (List.replicate (n + 1) '9')) := by
  have hend : Cut (List.replicate (n + 1) '9' ++ ['}', '}'])
      [.numeral (List.replicate (n + 1) '9'), .mark '}', .mark '}'] [] :=
    .next (nextPiece_repeated (by decide) n _) (.next rfl (.next rfl .done))
  have hevent : Cut (spelled (weightedEvent (List.replicate (n + 1) '9')))
      (weightedEvent (List.replicate (n + 1) '9')) [] := by
    refine .next (c := 'E') rfl (.next (c := ' ') rfl (.next (c := 'A') rfl ?_))
    refine .next (c := '{') rfl (.next (c := 'E') rfl (.next (c := ' ') rfl ?_))
    refine .next (c := 'e') rfl (.next (c := '{') rfl (.next (c := 'P') rfl ?_))
    refine .next (c := '[') rfl (.next (c := 'x') rfl (.next (c := ']') rfl ?_))
    exact .next (c := '=') rfl hend
  have hrun : splitRun ['='] = [['=']] := by decide +kernel
  unfold tokenize
  rw [String.toList_ofList, tokensFrom_of_cut_nil hevent]
  simp only [weightedEvent, tokensOf, Piece.tokens, hrun]
  rfl

theorem takeFloat_of_beyond {t : Token} {n : Number} (finish : Position) (rest : List Token)
    (hkind : t.kind = .number) (hread : numeralNumber t.value = .ok n)
    (hbeyond : n.toFloat? = none) :
    takeFloat finish (t :: rest) = .error (.numeral .intBeyondFloats) := by
  have hminus : t.isOperator "-" = false := by simp [Token.isOperator, hkind]
  have hnumber : takeNumber finish (t :: rest) = .ok (n, t, .tail t rest) := by
    simp [takeNumber, takeToken, hminus, hkind, hread, bind, Except.bind, pure, Except.pure]
  rw [takeFloat, hnumber]
  dsimp only [bind, Except.bind]
  rw [hbeyond]

theorem readWeighted_of_beyond {digits : List Char} {n : Number} (finish : Position)
    (hread : numeralNumber (String.ofList digits) = .ok n) (hbeyond : n.toFloat? = none) :
    readWeighted finish ((weightedEventTokens digits).drop 7) =
      .error (.numeral .intBeyondFloats) := by
  let tokens := weightedEventTokens digits
  have hfloat : takeFloat finish (tokens.drop 11) = .error (.numeral .intBeyondFloats) :=
    takeFloat_of_beyond finish _ rfl hread hbeyond
  have hoperand : taken (readOperand finish (tokens.drop 8)) =
      some (.identifier "x", tokens.drop 9) := by
    refine readOperand_bare rfl (by decide) fun u hu => ?_
    cases hu
    decide
  have hexpr : taken (readExpr finish 0 (tokens.drop 8)) =
      some (.identifier "x", tokens.drop 9) := by
    rw [taken_readExpr, hoperand]
    exact taken_continueExpr_cons finish 0 _ _ _
  obtain ⟨_, hexpr⟩ := taken_eq_some_iff.mp hexpr
  have hstart : (tokens.drop 8).length < (tokens.drop 7).length := by
    simp [tokens, weightedEventTokens]
  have hweight : (tokens.drop 11).length < (tokens.drop 7).length := by
    simp [tokens, weightedEventTokens]
  let start : Rest (tokens.drop 7) := ⟨tokens.drop 8, hstart⟩
  let weight : Rest (tokens.drop 7) := ⟨tokens.drop 11, hweight⟩
  change (start.andThen (readExpr finish 0) >>= _) = _
  rw [Rest.andThen_ok hexpr]
  change (weight.andThen (takeFloat finish) >>= _) = _
  rw [Rest.andThen_error hfloat]
  rfl

/-- The fault of the weight comes up through every reader around it. -/
theorem programOfTokens_weightedEvent_of_beyond {digits : List Char} {n : Number}
    (hread : numeralNumber (String.ofList digits) = .ok n) (hbeyond : n.toFloat? = none) :
    programOfTokens (weightedEventTokens digits) = .error (.numeral .intBeyondFloats) := by
  let tokens := weightedEventTokens digits
  let finish := endPosition tokens
  have hclauses : readClauses finish (.event "e") (readEventClause finish) false (tokens.drop 6) =
      .error (.numeral .intBeyondFloats) := by
    change readClauses finish _ _ _ (⟨.identifier, "P", ⟨1, 18⟩⟩ :: tokens.drop 7) = _
    have hclause : readEventClause finish ⟨.identifier, "P", ⟨1, 18⟩⟩ (tokens.drop 7) =
        .error (.numeral .intBeyondFloats) := by
      change (readWeighted finish (tokens.drop 7) >>= _) = _
      rw [readWeighted_of_beyond finish hread hbeyond]
      rfl
    rw [readClauses, hclause]
    rfl
  have hevent : readEvent finish (tokens.drop 4) = .error (.numeral .intBeyondFloats) := by
    have hlength : (tokens.drop 6).length < (tokens.drop 4).length := by
      simp [tokens, weightedEventTokens]
    let start : Rest (tokens.drop 4) := ⟨tokens.drop 6, hlength⟩
    change (start.andThen
      (readClauses finish (.event "e") (readEventClause finish) false) >>= _) = _
    rw [Rest.andThen_error hclauses]
    rfl
  have hbody : readEntityBody finish "A" false (tokens.drop 3) =
      .error (.numeral .intBeyondFloats) := by
    change readEntityBody finish "A" false (⟨.identifier, "Event", ⟨1, 10⟩⟩ :: tokens.drop 4) = _
    rw [readEntityBody, hevent]
    rfl
  have hentity : readEntity finish tokens = .error (.numeral .intBeyondFloats) := by
    have hlength : (tokens.drop 3).length < tokens.length := by
      simp [tokens, weightedEventTokens]
    let start : Rest tokens := ⟨tokens.drop 3, hlength⟩
    change (start.andThen (readEntityBody finish "A" false) >>= _) = _
    rw [Rest.andThen_error hbody]
    rfl
  unfold programOfTokens
  change (readDeclarations finish false
    (⟨.identifier, "Entity", ⟨1, 1⟩⟩ :: tokens.drop 1) >>= _) = _
  rw [readDeclarations]
  change ((readEntity finish tokens >>= _) >>= _) = _
  rw [hentity]
  rfl

theorem shortNumerals_weightedEventTokens {digits : List Char}
    (h : isShortNumeral (String.ofList digits) = true) :
    ShortNumerals (weightedEventTokens digits) := by
  intro t ht hkind
  have hvalue : t.value = String.ofList digits := by
    simp only [weightedEventTokens, List.mem_cons, List.not_mem_nil, or_false] at ht
    rcases ht with rfl | rfl | rfl | rfl | rfl | rfl | rfl | rfl | rfl | rfl | rfl | rfl | rfl | rfl
      <;> first | rfl | cases hkind
  rwa [hvalue]

theorem readProgram_of_tokens {ts : List Token} (h : tokenize source = .ok ts) :
    readProgram source = programOfTokens ts := by
  rw [readProgram, h]

theorem register_of_numeral (h : readProgram source = .error (.numeral fault)) (e : Engine)
    (name description : Option String) :
    (e.register source name description).1 = .error (.numeral fault) := by
  rw [Engine.register, registrable, h]

theorem review_of_numeral (h : readProgram source = .error (.numeral fault))
    (htext : (trimStart source.toList).isEmpty = false)
    (hword : containsWord "Entity".toList false source.toList = true)
    (hbraces : braceProblems source.toList = [])
    (hlines : lineProblems 1 none (lines source.toList) = []) :
    review source = .error (.numeral fault) := by
  unfold review
  simp only [htext, hword, hbraces, hlines, h, Bool.false_eq_true, if_false, if_true,
    List.append_nil, List.isEmpty_nil, Bool.not_true]

@[irreducible] def hugeWeight : List Char := List.replicate 310 '9'

theorem hugeWeight_digits : ∀ c ∈ (String.ofList hugeWeight).toList, c.isDigit = true := by
  rw [String.toList_ofList, hugeWeight]
  intro c hc
  rw [List.eq_of_mem_replicate hc]
  decide

theorem hugeWeight_short : isShortNumeral (String.ofList hugeWeight) = true := by
  refine isShortNumeral_of_digits hugeWeight_digits ?_
  rw [String.toList_ofList, hugeWeight, List.length_replicate]
  decide

theorem hugeWeight_beyond : (numeralValue (String.ofList hugeWeight)).toFloat? = none := by
  have hvalue : digitsValue (hugeWeight.map fun c => c.toNat - '0'.toNat) = 10 ^ 310 - 1 := by
    decide +kernel
  rw [numeralValue_of_digits hugeWeight_digits, String.toList_ofList, hvalue]
  decide +kernel

theorem tokenize_hugeWeight :
    tokenize (String.ofList (spelled (weightedEvent hugeWeight))) =
      .ok (weightedEventTokens hugeWeight) := by
  unfold hugeWeight
  exact tokenize_weightedEvent_nines 309

theorem readProgram_hugeWeight :
    readProgram (String.ofList (spelled (weightedEvent hugeWeight))) =
      .error (.numeral .intBeyondFloats) := by
  rw [readProgram_of_tokens tokenize_hugeWeight]
  exact programOfTokens_weightedEvent_of_beyond
    (numeralNumber_eq_ok_iff.mpr ⟨hugeWeight_short, rfl⟩) hugeWeight_beyond

theorem review_hugeWeight :
    review (String.ofList (spelled (weightedEvent hugeWeight))) =
      .error (.numeral .intBeyondFloats) := by
  have hword : containsWord "Entity".toList false
      ([] ++ ("Entity".toList ++ spelled (weightedEvent hugeWeight).tail)) = true := by
    refine containsWord_of_split (by decide) (fun _ => rfl) nofun fun c hc => ?_
    cases hc
    decide
  have htext : (String.ofList (spelled (weightedEvent hugeWeight))).toList =
      spelled (weightedEvent hugeWeight) := String.toList_ofList
  apply review_of_numeral readProgram_hugeWeight
  all_goals rw [htext]
  · rfl
  · exact hword
  · rw [← List.isEmpty_iff]
    decide +kernel
  · rw [← List.isEmpty_iff]
    decide +kernel

/-- A weight that is no float is no fault of syntax, though its digits are few enough: the review of
the source fails, and so does its registration. -/
theorem huge_weight_unreported :
    ∃ source, (∀ ts, tokenize source = .ok ts → ShortNumerals ts) ∧
      readProgram source = .error (.numeral .intBeyondFloats) ∧
      review source = .error (.numeral .intBeyondFloats) ∧
      ∀ (e : Engine) (name description : Option String),
        (e.register source name description).1 = .error (.numeral .intBeyondFloats) := by
  refine ⟨_, fun ts hts => ?_, readProgram_hugeWeight, review_hugeWeight,
    register_of_numeral readProgram_hugeWeight⟩
  rw [← Except.ok.inj (tokenize_hugeWeight.symm.trans hts)]
  exact shortNumerals_weightedEventTokens hugeWeight_short

end StepWorld
