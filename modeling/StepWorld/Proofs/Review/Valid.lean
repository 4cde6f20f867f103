import StepWorld.Proofs.Review.Lines
import StepWorld.Proofs.Review.Words
import StepWorld.Proofs.Syntax.Braces

/-! Reviews of sources that are read without a warning. The braces and the words of such a source
give a review no reason to complain, so all that it can find is what the walk over the lines
finds: it takes comment marks inside quotations for comments, and it asks for the brace of an
entity on the header's line or at the beginning of the next one that is not blank. -/

namespace StepWorld

variable {source : String} {program : Program} {names seen : List String} {tokens : List Token}
  {pieces : List Piece}

/-- A program without passed-over tokens that has entities, and no name twice. -/
structure Program.WellFormed (program : Program) : Prop where
  warnings : program.warnings = []
  entities : program.entities ≠ []
  entityNames : (program.entities.map (·.name)).Nodup
  ruleNames : (program.rules.map (·.name)).Nodup

/-! ### Names -/

theorem duplicatesAfter_of_nodup (h : names.Nodup) (hseen : ∀ name ∈ names, name ∉ seen) :
    duplicatesAfter seen [] names = [] := by
  induction names generalizing seen with
  | nil => rfl
  | cons name names ih =>
    obtain ⟨hname, hnames⟩ := List.nodup_cons.mp h
    have hnew : seen.contains name = false := by
      simpa using hseen name List.mem_cons_self
    rw [duplicatesAfter, hnew]
    refine ih hnames fun other hother hmem => ?_
    rcases List.mem_cons.mp hmem with rfl | hmem
    · exact hname hother
    · exact hseen other (List.mem_cons_of_mem name hother) hmem

theorem duplicates_of_nodup (h : names.Nodup) : duplicates names = [] :=
  duplicatesAfter_of_nodup h fun _ _ => List.not_mem_nil

theorem Program.WellFormed.report_problems (h : program.WellFormed) (cautions : List Caution) :
    (program.report cautions).problems = [] := by
  have hsome : program.entities.isEmpty = false := by
    simpa using h.entities
  simp [Program.report, Program.duplicateProblems, duplicates_of_nodup h.entityNames,
    duplicates_of_nodup h.ruleNames, hsome]

/-! ### Braces and words -/

theorem mem_of_containsWord {c : Char} {word text : List Char} {afterWordChar : Bool}
    (h : containsWord (c :: word) afterWordChar text = true) : c ∈ text := by
  induction text generalizing afterWordChar with
  | nil => cases h
  | cons d text ih =>
    rw [containsWord, Bool.or_eq_true_iff] at h
    rcases h with h | h
    · have hbegins : (c :: word).isPrefixOf (d :: text) = true := by
        simp only [beginsWithWord, Bool.and_eq_true] at h
        exact h.2.1
      obtain ⟨rfl, -⟩ := List.cons_prefix_cons.mp (List.isPrefixOf_iff_prefix.mp hbegins)
      exact List.mem_cons_self
    · exact List.mem_cons_of_mem d (ih h)

theorem cut_of_readProgram (hread : readProgram source = .ok program)
    (hwarnings : program.warnings = []) : ∃ pieces, Cut source.toList pieces [] ∧
      DerivesProgram false (tokensOf .start pieces) program := by
  unfold readProgram at hread
  split at hread
  · cases hread
  · next tokens htokens =>
    obtain ⟨pieces, hcut, rfl⟩ := tokensFrom_eq_ok_iff.mp htokens
    exact ⟨pieces, hcut, (derivesProgram_of_programOfTokens hread).strict hwarnings⟩

theorem braceProblems_eq_nil {text : List Char} (hcut : Cut text pieces [])
    (hprogram : DerivesProgram false (tokensOf .start pieces) program) :
    braceProblems text = [] := by
  refine if_pos ?_
  rw [count_exposed (.inl rfl) hcut .start, count_exposed (.inr rfl) hcut .start]
  exact hprogram.level

theorem containsWord_entity {text : List Char} (hcut : Cut text pieces [])
    (hprogram : DerivesProgram false (tokensOf .start pieces) program)
    (hentities : program.entities ≠ []) :
    containsWord "Entity".toList false text = true := by
  obtain ⟨before, t, after, htokens, hword, hlast⟩ := hprogram.exists_entity hentities
  exact containsWord_of_cut hcut htokens hword hlast

theorem review_problems (hread : readProgram source = .ok program) (hwell : program.WellFormed) :
    ∃ report, review source = .ok report ∧
      report.problems = lineProblems 1 none (lines source.toList) := by
  obtain ⟨pieces, hcut, hprogram⟩ := cut_of_readProgram hread hwell.warnings
  have hword := containsWord_entity hcut hprogram hwell.entities
  have hbraces := braceProblems_eq_nil hcut hprogram
  have hvisible : (trimStart source.toList).isEmpty = false := by
    refine List.isEmpty_eq_false_iff.mpr fun hnil => ?_
    have hmem : 'E' ∈ source.toList := mem_of_containsWord hword
    rw [← List.takeWhile_append_dropWhile (p := isBlank) (l := source.toList),
      List.mem_append] at hmem
    rcases hmem with hmem | hmem
    · exact absurd (of_mem_takeWhile hmem) (by decide)
    · rw [trimStart] at hnil
      rw [hnil] at hmem
      cases hmem
  unfold review
  simp only [hvisible, hword, hbraces, hread, if_true, if_false, List.nil_append,
    Bool.false_eq_true]
  split
  · exact ⟨_, rfl, rfl⟩
  · next hnone =>
    have hlines : lineProblems 1 none (lines source.toList) = [] := by
      simpa using hnone
    exact ⟨_, rfl, (hwell.report_problems _).trans hlines.symm⟩

/-- Whether every line outside comments that begins with the word of an entity and has no opening
brace is followed by one. -/
def HeadersFollowed (source : String) : Prop :=
  ∀ before line after, lines source.toList = before ++ line :: after →
    openLines 1 none before = none → isBareEntityLine line = true → bodyFollows after = true

/-- Whether a source is cut into pieces that a walk over lines takes for what they are. -/
def PlainPieces (source : String) : Prop :=
  ∃ pieces, Cut source.toList pieces [] ∧ ∀ piece ∈ pieces, piece.IsPlain

theorem PlainPieces.openLines_eq_none (h : PlainPieces source) :
    openLines 1 none (lines source.toList) = none := by
  obtain ⟨pieces, hcut, hplain⟩ := h
  have hopen : (openLines 1 none (lines source.toList)).isSome = leavesOpen .plain source.toList :=
    openLines_linesAfter fun _ hc => absurd hc List.not_mem_nil
  rw [← Option.not_isSome_iff_eq_none, hopen, leavesOpen_of_cut hcut hplain]
  exact Bool.false_ne_true

/-- A well-formed source is valid exactly if the walk over its lines leaves no comment open and
finds a brace for every header; if no quotation holds the mark of a comment and every line comment
ends with its line, the headers alone decide. -/
theorem review_wellFormed (hread : readProgram source = .ok program) (hwell : program.WellFormed) :
    ∃ report, review source = .ok report ∧
      (report.valid = true ↔ openLines 1 none (lines source.toList) = none ∧
        HeadersFollowed source) ∧
      (PlainPieces source → (report.valid = true ↔ HeadersFollowed source)) := by
  obtain ⟨report, hreport, hproblems⟩ := review_problems hread hwell
  have hvalid : report.valid = true ↔ openLines 1 none (lines source.toList) = none ∧
      HeadersFollowed source := by
    rw [Report.valid, List.isEmpty_iff, hproblems, lineProblems_eq_nil_iff]
    rfl
  refine ⟨report, hreport, hvalid, fun hplain => hvalid.trans ?_⟩
  exact and_iff_right hplain.openLines_eq_none

/-- An entity whose only property is an enumeration with one quoted member, in pieces. -/
def enumEntity (gap member : List Char) : List Piece :=
  [.word "Entity".toList, .blank gap, .word ['A'], .mark '{', .word "State".toList, .mark '{',
    .word ['x'], .mark ':', .word "Enum".toList, .mark '(', .quotation '"' member, .mark ')',
    .mark '}', .mark '}']

theorem cut_enumEntity {gap member : List Char} (hgap : gap = [' '] ∨ gap = ['\n'])
    (hmember : '"' ∉ member) :
    Cut (spelled (enumEntity gap member)) (enumEntity gap member) [] := by
  have hquotation : nextPiece '"' (member ++ ['"', ')', '}', '}']) =
      .ok (.quotation '"' member, [')', '}', '}']) :=
    nextPiece_eq_ok_iff.mpr ⟨by simp [Piece.text], ⟨.inl rfl, hmember⟩, trivial⟩
  have hend : Cut ('"' :: (member ++ ['"', ')', '}', '}']))
      [.quotation '"' member, .mark ')', .mark '}', .mark '}'] [] :=
    .next hquotation (.next rfl (.next rfl (.next rfl .done)))
  have hbody : Cut ("\x7bState\x7bx:Enum(".toList ++ '"' :: (member ++ ['"', ')', '}', '}']))
      ((enumEntity gap member).drop 3) [] :=
    .next (c := '{') rfl (.next (c := 'S') rfl (.next (c := '{') rfl (.next (c := 'x') rfl
      (.next (c := ':') rfl (.next (c := 'E') rfl (.next (c := '(') rfl hend))))))
  have htext : spelled (enumEntity gap member) =
      "Entity".toList ++ (gap ++ 'A' :: ("\x7bState\x7bx:Enum(".toList ++
        '"' :: (member ++ ['"', ')', '}', '}']))) := by
    simp [enumEntity, Piece.text]
  rw [htext]
  rcases hgap with rfl | rfl
  · exact .next (c := 'E') rfl (.next (c := ' ') rfl (.next (c := 'A') rfl hbody))
  · exact .next (c := 'E') rfl (.next (c := '\n') rfl (.next (c := 'A') rfl hbody))

theorem derivesProgram_enumEntity (gap member : List Char) :
    DerivesProgram false (tokensOf .start (enumEntity gap member))
      ⟨[⟨"A", [⟨"x", .enum [String.ofList member]⟩], [], 1⟩], [], []⟩ := by
  let tokens := tokensOf .start (enumEntity gap member)
  have hproperties : DerivesProperties (tokens.drop 5) (tokens.drop 12)
      [⟨"x", .enum [String.ofList member]⟩] :=
    .property rfl rfl (.enum rfl rfl (.last (.inl rfl) rfl)) (.close rfl)
  have hstate : DerivesEntityPart false (tokens.drop 3) (tokens.drop 12)
      ⟨[.state [⟨"x", .enum [String.ofList member]⟩]], []⟩ := .state rfl rfl hproperties
  have hentity : DerivesBlock false "Entity" .entity beginsEntityPart (DerivesEntityPart false)
      tokens [] ⟨.identifier, "Entity", ⟨1, 1⟩⟩ "A"
      ⟨[.state [⟨"x", .enum [String.ofList member]⟩]], []⟩ :=
    .block rfl rfl rfl (.part hstate .nil) rfl
  exact .program (.part (.entity hentity) .nil)

theorem readProgram_enumEntity (gap member : List Char) (hgap : gap = [' '] ∨ gap = ['\n'])
    (hmember : '"' ∉ member) : ∃ program, program.WellFormed ∧
      readProgram (String.ofList (spelled (enumEntity gap member))) = .ok program := by
  have hs : ShortNumerals (tokensOf .start (enumEntity gap member)) := by
    intro t ht hk
    simp only [enumEntity, tokensOf, Piece.tokens, List.cons_append, List.nil_append,
      List.mem_cons, List.not_mem_nil, or_false] at ht
    rcases ht with rfl | rfl | rfl | rfl | rfl | rfl | rfl | rfl | rfl | rfl | rfl | rfl | rfl <;>
      cases hk
  obtain ⟨hread, hwarnings⟩ :=
    programOfTokens_of_derivesProgram hs (derivesProgram_enumEntity gap member)
  refine ⟨_, ⟨hwarnings, List.cons_ne_nil _ _, List.pairwise_singleton _ _, List.nodup_nil⟩, ?_⟩
  rw [readProgram, tokenize, String.toList_ofList,
    tokensFrom_of_cut_nil (cut_enumEntity hgap hmember)]
  exact hread

/-- A member without comment marks is accepted behind a header with its brace. -/
theorem review_wellFormed_enum :
    let source := String.ofList (spelled (enumEntity [' '] ['a']))
    PlainPieces source ∧ HeadersFollowed source ∧
      ∃ report, review source = .ok report ∧ report.valid = true := by
  intro source
  obtain ⟨program, hwell, hread⟩ :=
    readProgram_enumEntity [' '] ['a'] (.inl rfl) (by decide)
  have hcut : Cut source.toList (enumEntity [' '] ['a']) [] := by
    rw [String.toList_ofList]
    exact cut_enumEntity (.inl rfl) (by decide)
  have hplain : PlainPieces source := ⟨_, hcut, by decide⟩
  have hheaders : HeadersFollowed source := by
    have hlines : lines source.toList = [source.toList] := by
      rw [String.toList_ofList]
      rfl
    intro before line after hsplit _ hbare
    have hmem : line ∈ lines source.toList :=
      hsplit ▸ List.mem_append_right before List.mem_cons_self
    rw [hlines, List.mem_singleton] at hmem
    rw [hmem, String.toList_ofList] at hbare
    exact absurd hbare (by decide)
  obtain ⟨report, hreport, -, hvalid⟩ := review_wellFormed hread hwell
  exact ⟨hplain, hheaders, report, hreport, (hvalid hplain).mpr hheaders⟩

/-- A well-formed source is refused for the mark of a comment inside a quotation. -/
theorem quotedMark_refused :
    ∃ source program report, readProgram source = .ok program ∧ program.WellFormed ∧
      review source = .ok report ∧ report.problems = [.unclosedComment 1] := by
  obtain ⟨program, hwell, hread⟩ :=
    readProgram_enumEntity [' '] ['/', '*'] (.inl rfl) (by decide)
  obtain ⟨report, hreport, hproblems⟩ := review_problems hread hwell
  refine ⟨_, program, report, hread, hwell, hreport, hproblems.trans ?_⟩
  rw [String.toList_ofList]
  rfl

/-- A well-formed source is refused for a header that is broken before the name. -/
theorem brokenHeader_refused :
    ∃ source program report, readProgram source = .ok program ∧ program.WellFormed ∧
      review source = .ok report ∧ report.problems = [.missingBrace 1] := by
  obtain ⟨program, hwell, hread⟩ :=
    readProgram_enumEntity ['\n'] ['a'] (.inr rfl) (by decide)
  obtain ⟨report, hreport, hproblems⟩ := review_problems hread hwell
  refine ⟨_, program, report, hread, hwell, hreport, hproblems.trans ?_⟩
  rw [String.toList_ofList]
  rfl

end StepWorld
