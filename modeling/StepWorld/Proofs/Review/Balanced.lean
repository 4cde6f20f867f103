import StepWorld.Proofs.Review.Valid

/-! The braces that a review counts. A review blanks out comments and quotations by a scan of its
own; on every source that can be cut into tokens the braces that are left over are the marks among
the tokens, so no more and no fewer braces are complained about than reading meets. -/

namespace StepWorld

variable {source : String} {text : List Char} {tokens : List Token} {opening closing : Nat}
  {report : Report} {p : Problem}

theorem of_mem_lineProblems {number : Nat} {opened : Option Nat} {ls : List (List Char)}
    (h : p ∈ lineProblems number opened ls) :
    (∃ line, p = .missingBrace line) ∨ ∃ line, p = .unclosedComment line := by
  induction ls generalizing number opened with
  | nil =>
    cases opened with
    | none => cases h
    | some line => exact .inr ⟨line, List.mem_singleton.mp h⟩
  | cons line ls ih =>
    rcases List.mem_append.mp h with h | h
    · split at h
      · exact .inl ⟨number, List.mem_singleton.mp h⟩
      · cases h
    · exact ih h

theorem Program.ne_unbalancedBraces {program : Program} {cautions : List Caution}
    (h : p ∈ (program.report cautions).problems) : p ≠ .unbalancedBraces opening closing := by
  rintro rfl
  simp only [Program.report, Program.duplicateProblems, List.mem_append, List.mem_map,
    reduceCtorEq, and_false, exists_false, or_false] at h
  split at h <;> simp at h

theorem mem_braceProblems : .unbalancedBraces opening closing ∈ braceProblems text ↔
    opening = (exposed text).count '{' ∧ closing = (exposed text).count '}' ∧
      opening ≠ closing := by
  simp only [braceProblems]
  split
  · next heq =>
    refine iff_of_false List.not_mem_nil ?_
    rintro ⟨rfl, rfl, hne⟩
    exact hne heq
  · next hne =>
    simp only [List.mem_singleton, Problem.unbalancedBraces.injEq]
    refine ⟨?_, fun ⟨hopening, hclosing, _⟩ => ⟨hopening, hclosing⟩⟩
    rintro ⟨rfl, rfl⟩
    exact ⟨rfl, rfl, hne⟩

theorem forall_isBlank_of_trimStart (h : trimStart text = []) : ∀ c ∈ text, isBlank c = true := by
  simpa [trimStart] using h

theorem braceProblems_of_blank (h : ∀ c ∈ text, isBlank c = true) : braceProblems text = [] := by
  have hplain : ∀ c ∈ text, c ≠ '/' ∧ c ≠ '"' ∧ c ≠ '\'' ∧ c ≠ '{' ∧ c ≠ '}' := by
    intro c hc
    have hblank := h c hc
    refine ⟨?_, ?_, ?_, ?_, ?_⟩ <;> rintro rfl <;> exact absurd hblank (by decide)
  have happend : exposed (text ++ []) = text ++ exposed [] :=
    exposed_append (.of_forall fun c hc => (hplain c hc).1)
      fun c hc => ⟨(hplain c hc).2.1, (hplain c hc).2.2.1⟩
  have hexposed : exposed text = text := by
    simpa [exposed_nil] using happend
  have hopening : text.count '{' = 0 :=
    List.count_eq_zero.mpr fun hmem => (hplain _ hmem).2.2.2.1 rfl
  have hclosing : text.count '}' = 0 :=
    List.count_eq_zero.mpr fun hmem => (hplain _ hmem).2.2.2.2 rfl
  rw [braceProblems, hexposed, hopening, hclosing, if_pos rfl]

/-- Where the problems of a report come from. -/
theorem problems_of_review (h : review source = .ok report) :
    (trimStart source.toList = [] ∧ report.problems = [.empty]) ∨
      (∃ words, (∀ p ∈ words, p = Problem.noEntityWord) ∧
        report.problems =
          words ++ braceProblems source.toList ++ lineProblems 1 none (lines source.toList)) ∨
      (braceProblems source.toList = [] ∧ ((∃ program cautions,
        report = Program.report program cautions) ∨ (∃ e, report.problems = [.lexical e]) ∨
          ∃ e, report.problems = [.structural e])) := by
  unfold review at h
  simp only at h
  by_cases hblank : (trimStart source.toList).isEmpty = true
  · rw [if_pos hblank] at h
    cases h
    exact .inl ⟨List.isEmpty_iff.mp hblank, rfl⟩
  rw [if_neg hblank] at h
  refine .inr ?_
  generalize hwords : (if containsWord "Entity".toList false source.toList = true then []
    else [Problem.noEntityWord]) = words at h
  by_cases hempty : (!(words ++ braceProblems source.toList ++
      lineProblems 1 none (lines source.toList)).isEmpty) = true
  · rw [if_pos hempty] at h
    cases h
    refine .inl ⟨words, fun p hp => ?_, rfl⟩
    subst hwords
    split at hp
    · cases hp
    · exact List.mem_singleton.mp hp
  · rw [if_neg hempty] at h
    have hnil : braceProblems source.toList = [] := by
      simp only [Bool.not_eq_true', Bool.not_eq_false, List.isEmpty_iff,
        List.append_eq_nil_iff] at hempty
      exact hempty.1.2
    refine .inr ⟨hnil, ?_⟩
    cases hread : readProgram source with
    | ok program =>
      rw [hread] at h
      cases h
      exact .inl ⟨program, _, rfl⟩
    | error e =>
      rw [hread] at h
      cases e with
      | lexical e => cases h; exact .inr (.inl ⟨e, rfl⟩)
      | structural e => cases h; exact .inr (.inr ⟨e, rfl⟩)
      | numeral fault => cases h

theorem mem_problems_iff_mem_braceProblems (h : review source = .ok report) :
    .unbalancedBraces opening closing ∈ report.problems ↔
      .unbalancedBraces opening closing ∈ braceProblems source.toList := by
  rcases problems_of_review h with ⟨hblank, hproblems⟩ | ⟨words, hwords, hproblems⟩ | ⟨hnil, hread⟩
  · rw [braceProblems_of_blank (forall_isBlank_of_trimStart hblank), hproblems]
    simp
  · have hword : Problem.unbalancedBraces opening closing ∉ words := fun hmem =>
      Problem.noConfusion (hwords _ hmem)
    have hline : Problem.unbalancedBraces opening closing ∉
        lineProblems 1 none (lines source.toList) := fun hmem => by
      rcases of_mem_lineProblems hmem with ⟨line, hline⟩ | ⟨line, hline⟩ <;> cases hline
    simp only [hproblems, List.mem_append, hword, hline, false_or, or_false]
  · rw [hnil]
    refine iff_of_false (fun hmem => ?_) List.not_mem_nil
    rcases hread with ⟨program, cautions, rfl⟩ | ⟨e, hproblems⟩ | ⟨e, hproblems⟩
    · exact Program.ne_unbalancedBraces hmem rfl
    · simp [hproblems] at hmem
    · simp [hproblems] at hmem

theorem braceProblems_of_readProgram {program : Program}
    (hread : readProgram source = .ok program) (hwarnings : program.warnings = []) :
    braceProblems source.toList = [] := by
  obtain ⟨pieces, hcut, hprogram⟩ := cut_of_readProgram hread hwarnings
  exact braceProblems_eq_nil hcut hprogram

/-- A review gives a verdict on whatever can be read. -/
theorem exists_review_of_readProgram {program : Program}
    (hread : readProgram source = .ok program) : ∃ report, review source = .ok report := by
  unfold review
  simp only [hread]
  by_cases hblank : (trimStart source.toList).isEmpty = true
  · exact ⟨_, if_pos hblank⟩
  · rw [if_neg hblank, ← apply_ite Except.ok]
    exact ⟨_, rfl⟩

/-- The braces left over outside comments and quotations are the marks among the tokens; a review
calls them unbalanced exactly if these differ, and never if the source is read without a
warning. -/
theorem braces_are_tokens (htokens : tokenize source = .ok tokens) :
    (exposed source.toList).count '{' = tokens.countP (·.isMark '{') ∧
      (exposed source.toList).count '}' = tokens.countP (·.isMark '}') ∧
      (∀ report, review source = .ok report → ∀ opening closing,
        .unbalancedBraces opening closing ∈ report.problems ↔
          opening = tokens.countP (·.isMark '{') ∧ closing = tokens.countP (·.isMark '}') ∧
            opening ≠ closing) ∧
      ∀ program, readProgram source = .ok program → program.warnings = [] →
        ∃ report, review source = .ok report ∧
          ∀ opening closing, .unbalancedBraces opening closing ∉ report.problems := by
  obtain ⟨pieces, hcut, rfl⟩ := tokensFrom_eq_ok_iff.mp htokens
  have hopening := count_exposed (b := '{') (.inl rfl) hcut .start
  have hclosing := count_exposed (b := '}') (.inr rfl) hcut .start
  refine ⟨hopening, hclosing, ?_, ?_⟩
  · intro report hreport opening closing
    rw [mem_problems_iff_mem_braceProblems hreport, mem_braceProblems, hopening, hclosing]
  · intro program hread hwarnings
    obtain ⟨report, hreport⟩ := exists_review_of_readProgram hread
    refine ⟨report, hreport, fun opening closing => ?_⟩
    rw [mem_problems_iff_mem_braceProblems hreport,
      braceProblems_of_readProgram hread hwarnings]
    exact List.not_mem_nil

/-- A brace inside a quotation is none of the tokens, and none that a review counts. -/
theorem braces_are_tokens_enum :
    let source := String.ofList (spelled (enumEntity [' '] ['}']))
    ∃ tokens program report, tokenize source = .ok tokens ∧
      tokens.countP (·.isMark '{') = 2 ∧ tokens.countP (·.isMark '}') = 2 ∧
      source.toList.count '}' = 3 ∧ (exposed source.toList).count '}' = 2 ∧
      readProgram source = .ok program ∧ program.warnings = [] ∧
      review source = .ok report ∧ .unbalancedBraces 2 3 ∉ report.problems := by
  intro source
  have htokens : tokenize source = .ok (tokensOf .start (enumEntity [' '] ['}'])) := by
    rw [tokenize, String.toList_ofList]
    exact tokensFrom_of_cut_nil (cut_enumEntity (.inl rfl) (by decide)) .start
  obtain ⟨program, hwell, hread⟩ := readProgram_enumEntity [' '] ['}'] (.inl rfl) (by decide)
  obtain ⟨-, hclosing, -, hnever⟩ := braces_are_tokens htokens
  obtain ⟨report, hreport, hnone⟩ := hnever program hread hwell.warnings
  have hcount : source.toList.count '}' = 3 := by
    rw [String.toList_ofList]
    decide
  exact ⟨_, program, report, htokens, by decide, by decide, hcount, hclosing.trans (by decide),
    hread, hwell.warnings, hreport, hnone 2 3⟩

end StepWorld
