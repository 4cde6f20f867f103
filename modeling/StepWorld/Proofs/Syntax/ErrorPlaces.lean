import StepWorld.Proofs.Syntax.DeclarationFaults
import StepWorld.Proofs.Syntax.Tiling

/-! Where faults of syntax stand. A fault points at the token that was found in place of something
else, or at the end of the last token. That end is counted from the token's value, which for a
string lacks the quotes and may hold line ends, so it is the end of the token's literal for all
tokens but strings. -/

namespace StepWorld

variable {source : String} {tokens : List Token} {before text literal : List Char} {t last : Token}
  {piece : Piece} {pieces : List Piece} {place : Position} {c : Char}

/-! ### Literals without line ends -/

theorem newline_notMem_run {run tail : List Char} (h : takeRun (run ++ tail) = (run, tail)) :
    '\n' ∉ run := by
  induction run with
  | nil => exact List.not_mem_nil
  | cons c run ih =>
    obtain ⟨hc, hrest⟩ := takeRun_cons h
    have hne : '\n' ≠ c := by
      rintro rfl
      rcases hc with hc | ⟨hc, -⟩
      · exact absurd hc (by decide)
      · exact absurd hc (by decide)
    exact fun hmem => (List.mem_cons.mp hmem).elim hne (ih hrest)

theorem newline_notMem_text {tail : List Char} (hproper : piece.Proper)
    (hends : piece.EndsBefore tail) (hgap : ¬ piece.IsGap)
    (hquotation : ∀ quote body, piece ≠ .quotation quote body) : '\n' ∉ piece.text := by
  have hdigit {digits : List Char} (h : ∀ c ∈ digits, c.isDigit = true) : '\n' ∉ digits :=
    fun hmem => absurd (h _ hmem) (by decide)
  cases piece with
  | blank | lineComment | blockComment => exact absurd trivial hgap
  | quotation quote body => exact absurd rfl (hquotation quote body)
  | word text =>
    obtain ⟨d, more, rfl, hstart, hpart⟩ := hproper
    intro hmem
    rcases List.mem_cons.mp hmem with rfl | hmem
    · exact absurd hstart (by decide)
    · exact absurd (hpart _ hmem) (by decide)
  | numeral text =>
    cases hproper with
    | whole _ hall => exact hdigit hall
    | decimal _ hall _ hall' =>
      simp only [Piece.text, List.mem_append, List.mem_cons, not_or]
      exact ⟨hdigit hall, by decide, hdigit hall'⟩
  | operators run => exact newline_notMem_run hends
  | mark d =>
    intro hmem
    have hmark : isMark '\n' = true := List.mem_singleton.mp hmem ▸ hproper
    exact absurd hmark (by decide)

theorem mem_text_of_mem_tokens (h : t ∈ piece.tokens place) (hc : c ∈ t.value.toList) :
    c ∈ piece.text := by
  cases piece with
  | blank | lineComment | blockComment => cases h
  | word text | numeral text =>
    obtain rfl := List.mem_singleton.mp h
    simpa [Piece.text] using hc
  | quotation quote body =>
    obtain rfl := List.mem_singleton.mp h
    have hbody : c ∈ body := by simpa using hc
    exact List.mem_cons_of_mem quote (List.mem_append_left [quote] hbody)
  | operators run =>
    have hflatten := List.mem_flatten.mpr ⟨_, value_mem_of_mem_operatorTokens h, hc⟩
    rwa [(splitRun_spec run).1] at hflatten
  | mark d =>
    obtain rfl := List.mem_singleton.mp h
    simpa [Piece.text] using hc

theorem newline_notMem_value (h : Cut text pieces []) (ht : t ∈ tokensOf place pieces)
    (hkind : t.kind ≠ .string) : '\n' ∉ t.value.toList := by
  induction h using Cut.end_induction generalizing place with
  | done => cases ht
  | @next piece tail pieces hproper hends _ _ ih =>
    rcases List.mem_append.mp ht with ht | ht
    · refine fun hmem => newline_notMem_text hproper hends ?_ ?_ (mem_text_of_mem_tokens ht hmem)
      · intro hgap
        cases piece with
        | blank | lineComment | blockComment => cases ht
        | word | numeral | quotation | operators | mark => exact hgap
      · rintro quote body rfl
        rw [List.mem_singleton.mp ht] at hkind
        exact hkind rfl
    · exact ih ht

/-! ### The end of the last literal -/

theorem Position.behind_append_of_line (before : List Char) (h : '\n' ∉ literal) :
    Position.behind (before ++ literal) =
      ⟨(Position.behind before).line, (Position.behind before).column + literal.length⟩ := by
  rw [Position.behind_append, Position.after_of_line _ h]

theorem Position.behind_line_append (before : List Char) :
    (Position.behind (before ++ literal)).line =
      (Position.behind before).line + literal.count '\n' := by
  simp only [behind, List.count_append]
  omega

theorem Token.WrittenAs.end_iff (h : t.WrittenAs literal)
    (hline : t.kind ≠ .string → '\n' ∉ t.value.toList) (hposition : t.position = .behind before) :
    (⟨t.position.line, t.position.column + t.value.length⟩ : Position) =
      .behind (before ++ literal) ↔ t.kind ≠ .string := by
  have hlength : t.value.length = t.value.toList.length := String.length_toList.symm
  rw [hposition, hlength]
  by_cases hkind : t.kind = .string
  · refine iff_of_false (fun heq => ?_) (not_not_intro hkind)
    obtain ⟨quote, hquote, rfl⟩ : ∃ quote, (quote = '"' ∨ quote = '\'') ∧
        literal = quote :: (t.value.toList ++ [quote]) := by
      simpa only [Token.WrittenAs, hkind] using h
    have hcount := congrArg Position.line heq
    rw [Position.behind_line_append] at hcount
    have hnone : '\n' ∉ quote :: (t.value.toList ++ [quote]) :=
      List.count_eq_zero.mp (Nat.add_eq_left.mp hcount.symm)
    rw [Position.behind_append_of_line before hnone, Position.mk.injEq] at heq
    simp only [List.length_cons, List.length_append] at heq
    omega
  · obtain rfl : literal = t.value.toList := by
      unfold Token.WrittenAs at h
      split at h
      · next hstring => exact absurd hstring hkind
      · exact h
    exact iff_of_true (Position.behind_append_of_line before (hline hkind)).symm hkind

theorem Tiles.exists_last (h : Tiles before text tokens) (hlast : tokens.getLast? = some last) :
    ∃ front literal gap, before ++ text = front ++ literal ++ gap ∧ Gap gap [] ∧
      last.WrittenAs literal ∧ last.position = .behind front := by
  induction h with
  | last => cases hlast
  | @token before gap literal rest t tokens _ _ hwritten hposition htiles ih =>
    cases tokens with
    | nil =>
      obtain rfl : t = last := by simpa using hlast
      cases htiles with
      | last hgap => exact ⟨before ++ gap, literal, rest, by simp, hgap, hwritten, hposition⟩
    | cons u tokens =>
      rw [List.getLast?_cons_cons] at hlast
      obtain ⟨front, literal', gap', htext, hrest⟩ := ih hlast
      exact ⟨front, literal', gap', by rw [← htext]; simp, hrest⟩

theorem exists_getLast?_of_error {e : SourceError} (h : programOfTokens tokens = .error e) :
    ∃ last, tokens.getLast? = some last := by
  refine Option.isSome_iff_exists.mp (List.getLast?_isSome.mpr ?_)
  rintro rfl
  rw [programOfTokens, readDeclarations] at h
  cases h

/-- A fault of syntax in a source that can be cut into tokens stands where one of them stands, or,
if it was found at the end, behind the value of the last token. That is the place behind the last
literal exactly if the last token is no string. -/
theorem readProgram_error_places {e : ParseError} (htokens : tokenize source = .ok tokens)
    (hread : readProgram source = .error (.structural e)) :
    (∃ t ∈ tokens, e.position = t.position ∧
        (e.found = .token t ∨ t.kind = .number ∧ ∃ x, e.found = .fraction x)) ∨
      e.found = .endOfInput ∧ ∃ before literal gap last,
        source.toList = before ++ literal ++ gap ∧ Gap gap [] ∧ tokens.getLast? = some last ∧
        last.WrittenAs literal ∧ last.position = .behind before ∧
        e.position = ⟨last.position.line, last.position.column + last.value.length⟩ ∧
        (e.position = .behind (before ++ literal) ↔ last.kind ≠ .string) := by
  obtain ⟨pieces, hcut, rfl⟩ := tokensFrom_eq_ok_iff.mp htokens
  rw [readProgram, htokens] at hread
  change programOfTokens (tokensOf .start pieces) = .error (.structural e) at hread
  have hpoints : e.PointsInto (endPosition (tokensOf .start pieces)) (tokensOf .start pieces) := by
    have hanswers := answers_programOfTokens (tokensOf .start pieces)
    rwa [hread] at hanswers
  unfold ParseError.PointsInto at hpoints
  split at hpoints
  · next hfound =>
    obtain ⟨last, hlast⟩ := exists_getLast?_of_error hread
    have htiles : Tiles [] source.toList (tokensOf .start pieces) := hcut.tiles []
    obtain ⟨before, literal, gap, htext, hgap, hwritten, hposition⟩ := htiles.exists_last hlast
    have hplace : e.position =
        ⟨last.position.line, last.position.column + last.value.length⟩ := by
      rw [hpoints, endPosition, hlast]
    have hline (hkind : last.kind ≠ .string) : '\n' ∉ last.value.toList :=
      newline_notMem_value hcut (List.mem_of_getLast? hlast) hkind
    refine .inr ⟨hfound, before, literal, gap, last, htext, hgap, hlast, hwritten, hposition,
      hplace, ?_⟩
    rw [hplace]
    exact hwritten.end_iff hline hposition
  · next t hfound => exact .inl ⟨t, hpoints.1, hpoints.2, .inl hfound⟩
  · next x hfound =>
    obtain ⟨t, ht, hkind, hposition⟩ := hpoints
    exact .inl ⟨t, ht, hposition, .inr ⟨hkind, x, hfound⟩⟩

def endReported? : Except SourceError Program → Option Position
  | .error (.structural ⟨_, .endOfInput, place⟩) => some place
  | _ => none

theorem exists_error_of_endReported? (source : String) (place : Position)
    (h : endReported? (readProgram source) = some place) :
    ∃ e, readProgram source = .error (.structural e) ∧ e.found = .endOfInput ∧
      e.position = place := by
  generalize readProgram source = result at h ⊢
  unfold endReported? at h
  split at h
  · cases h
    exact ⟨_, rfl, rfl, rfl⟩
  · cases h

/-- A rule without a name is reported right behind its keyword. -/
theorem readProgram_error_places_rule :
    ∃ tokens e, tokenize "Rule // r" = .ok tokens ∧
      readProgram "Rule // r" = .error (.structural e) ∧ e.position = .behind "Rule".toList := by
  have htokens : tokenize "Rule // r" = .ok [⟨.identifier, "Rule", ⟨1, 1⟩⟩] := by decide +kernel
  obtain ⟨e, hread, hfound, -⟩ :=
    exists_error_of_endReported? "Rule // r" ⟨1, 5⟩ (by decide +kernel)
  refine ⟨_, e, htokens, hread, ?_⟩
  rcases readProgram_error_places htokens hread with ⟨t, -, -, ht | ⟨-, x, hx⟩⟩ |
    ⟨-, before, literal, gap, last, -, -, hlast, -, -, hposition, -⟩
  · cases hfound.symm.trans ht
  · cases hfound.symm.trans hx
  · obtain rfl : _ = last := Option.some.inj hlast
    rw [hposition]
    decide

/-- Behind a string that ends a source the reported place is two columns short, and in another line
if the string goes over a line end. -/
theorem unclosed_string_misplaced :
    let source := "Rule r \x7b effect: \"a\""
    let twoLines := "Rule r \x7b effect: \"a\nb\""
    (∃ e, readProgram source = .error (.structural e) ∧ e.found = .endOfInput ∧
      e.position = ⟨1, 19⟩ ∧ Position.behind source.toList = ⟨1, 21⟩) ∧
    ∃ e, readProgram twoLines = .error (.structural e) ∧ e.found = .endOfInput ∧
      e.position = ⟨1, 21⟩ ∧ Position.behind twoLines.toList = ⟨2, 3⟩ := by
  intro source twoLines
  obtain ⟨e, hread, hfound, hposition⟩ :=
    exists_error_of_endReported? source ⟨1, 19⟩ (by decide +kernel)
  obtain ⟨e', hread', hfound', hposition'⟩ :=
    exists_error_of_endReported? twoLines ⟨1, 21⟩ (by decide +kernel)
  exact ⟨⟨e, hread, hfound, hposition, by decide +kernel⟩,
    e', hread', hfound', hposition', by decide +kernel⟩

end StepWorld
