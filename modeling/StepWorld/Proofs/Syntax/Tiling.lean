import StepWorld.Proofs.Syntax.Cutting

/-! Tokens tile their source: between the literals of the tokens there are only blanks and
comments, and every position is counted from the text before it. -/

namespace StepWorld

variable {c : Char} {before after text rest tail gap run : List Char} {piece : Piece}
  {pieces : List Piece} {token : Token} {tokens : List Token}

/-! ### Positions -/

/-- The place behind a text: the line ends in it are counted, and the characters after the last
one. -/
def Position.behind (text : List Char) : Position :=
  ⟨1 + text.count '\n', 1 + (text.reverse.takeWhile (· != '\n')).length⟩

theorem Position.behind_concat (text : List Char) (c : Char) :
    Position.behind (text ++ [c]) = (Position.behind text).next c := by
  by_cases hc : c = '\n'
  · simp [Position.behind, Position.next, hc, Nat.add_assoc]
  · simp [Position.behind, Position.next, hc, Nat.add_assoc, List.count_cons_of_ne]

theorem Position.behind_append (text more : List Char) :
    Position.behind (text ++ more) = (Position.behind text).after more := by
  induction more generalizing text with
  | nil => rw [List.append_nil]; rfl
  | cons c more ih =>
    rw [List.append_cons, ih, Position.behind_concat]
    rfl

theorem Position.start_after (text : List Char) : Position.start.after text = .behind text :=
  (Position.behind_append [] text).symm

theorem Position.after_of_line (place : Position) (h : '\n' ∉ text) :
    place.after text = ⟨place.line, place.column + text.length⟩ := by
  induction text generalizing place with
  | nil => rfl
  | cons c text ih =>
    simp only [List.mem_cons, not_or] at h
    have hnext : place.next c = ⟨place.line, place.column + 1⟩ := if_neg (Ne.symm h.1)
    show (place.next c).after text = _
    rw [ih _ h.2, hnext]
    simp only [List.length_cons, Position.mk.injEq, true_and]
    omega

/-! ### Gaps and literals -/

/-- `Gap text after`: a text of blanks, line comments and closed block comments, with `after`
behind it. A line comment goes up to a line end or to the end of the source. -/
inductive Gap : (text after : List Char) → Prop
  | empty {after : List Char} : Gap [] after
  | blank {c : Char} {text after : List Char} : isBlank c = true → Gap text after →
      Gap (c :: text) after
  | lineComment {body text after : List Char} : '\n' ∉ body →
      (∀ c ∈ (text ++ after).head?, c = '\n') → Gap text after →
        Gap ('/' :: '/' :: (body ++ text)) after
  | blockComment {inner text after : List Char} : ¬ ['*', '/'] <:+: inner ++ ['*'] →
      Gap text after → Gap ('/' :: '*' :: (inner ++ '*' :: '/' :: text)) after

/-- Whether a token is written as a literal: a string between two quotes of one kind, any other
token as its value. -/
def Token.WrittenAs (literal : List Char) (token : Token) : Prop :=
  match token.kind with
  | .string => ∃ quote, (quote = '"' ∨ quote = '\'') ∧
      literal = quote :: (token.value.toList ++ [quote])
  | _ => literal = token.value.toList

/-- `Tiles before text tokens`: behind the text `before`, a text is made of gaps and of the
literals of the tokens in order, and each token stands where its literal begins. -/
inductive Tiles : (before text : List Char) → List Token → Prop
  | last {before gap : List Char} : Gap gap [] → Tiles before gap []
  | token {before gap literal rest : List Char} {token : Token} {tokens : List Token} :
      Gap gap (literal ++ rest) → literal ≠ [] → token.WrittenAs literal →
      token.position = .behind (before ++ gap) → Tiles (before ++ gap ++ literal) rest tokens →
        Tiles before (gap ++ (literal ++ rest)) (token :: tokens)

def Piece.IsGap : Piece → Prop
  | .blank _ | .lineComment _ | .blockComment _ => True
  | _ => False

theorem Gap.of_blanks {blanks : List Char} (hall : ∀ c ∈ blanks, isBlank c = true)
    (h : Gap gap after) : Gap (blanks ++ gap) after := by
  induction blanks with
  | nil => exact h
  | cons c blanks ih =>
    exact .blank (hall c List.mem_cons_self) (ih fun d hd => hall d (List.mem_cons_of_mem c hd))

theorem Gap.of_piece (hgap : piece.IsGap) (hproper : piece.Proper)
    (hends : piece.EndsBefore (gap ++ after)) (h : Gap gap after) :
    Gap (piece.text ++ gap) after := by
  cases piece with
  | blank blanks => exact h.of_blanks hproper.2
  | lineComment comment =>
    obtain ⟨body, rfl, hbody⟩ := hproper
    exact .lineComment hbody hends h
  | blockComment comment =>
    obtain ⟨inner, rfl, hinner⟩ := hproper
    have heq : Piece.text (.blockComment ('/' :: '*' :: (inner ++ ['*', '/']))) ++ gap =
        '/' :: '*' :: (inner ++ '*' :: '/' :: gap) := by simp [Piece.text]
    exact heq ▸ .blockComment hinner h
  | word _ | numeral _ | quotation _ _ | operators _ | mark _ => exact hgap.elim

theorem Tiles.of_gap (hgap : piece.IsGap) (hproper : piece.Proper) (hends : piece.EndsBefore text)
    (h : Tiles (before ++ piece.text) text tokens) : Tiles before (piece.text ++ text) tokens := by
  generalize hbehind : before ++ piece.text = behind at h
  cases h with
  | last hlast => exact .last (.of_piece hgap hproper ((List.append_nil text).symm ▸ hends) hlast)
  | @token _ gap literal rest token tokens hnext hne hwritten hposition htiles =>
    subst hbehind
    rw [← List.append_assoc]
    rw [List.append_assoc before] at hposition htiles
    exact .token (.of_piece hgap hproper hends hnext) hne hwritten hposition htiles

theorem Tiles.of_literal {literal : List Char} (hne : literal ≠ [])
    (hwritten : token.WrittenAs literal) (hposition : token.position = .behind before)
    (h : Tiles (before ++ literal) text tokens) :
    Tiles before (literal ++ text) (token :: tokens) := by
  rw [← List.append_nil before] at hposition h
  exact .token .empty hne hwritten hposition h

/-! ### Runs of operator characters -/

theorem longestOperator?_begins {op : List Char} (h : longestOperator? run = some op) :
    op <+: run ∧ op ≠ [] := by
  have hmem := List.mem_of_find?_eq_some h
  have hbegins := List.find?_some h
  have hall : ∀ known ∈ knownOperators.map String.toList, known ≠ [] := by decide
  exact ⟨List.isPrefixOf_iff_prefix.mp hbegins, hall op hmem⟩

theorem splitRun_spec (run : List Char) :
    (splitRun run).flatten = run ∧ ∀ op ∈ splitRun run, op ≠ [] := by
  induction run using splitRun.induct with
  | case1 =>
    rw [splitRun]
    exact ⟨rfl, fun op hop => absurd hop List.not_mem_nil⟩
  | case2 c rest op hop ih =>
    obtain ⟨⟨more, hmore⟩, hne⟩ := longestOperator?_begins hop
    obtain ⟨d, inner, rfl⟩ := List.exists_cons_of_ne_nil hne
    obtain ⟨rfl, rfl⟩ := List.cons.inj hmore
    have hleft : List.drop ((d :: inner).length - 1) (inner ++ more) = more := List.drop_left
    rw [splitRun, hop]
    refine ⟨?_, fun part hpart => ?_⟩
    · rw [List.flatten_cons, ih.1]
      exact congrArg (d :: inner ++ ·) hleft
    · rcases List.mem_cons.mp hpart with rfl | hpart
      · exact hne
      · exact ih.2 part hpart
  | case3 c rest hnone =>
    rw [splitRun, hnone]
    refine ⟨List.append_nil _, fun op hop => ?_⟩
    rw [List.mem_singleton.mp hop]
    exact List.cons_ne_nil c rest

theorem Tiles.of_operators {ops : List (List Char)} (hne : ∀ op ∈ ops, op ≠ [])
    (h : Tiles (before ++ ops.flatten) text tokens) :
    Tiles before (ops.flatten ++ text) (operatorTokens (.behind before) ops ++ tokens) := by
  induction ops generalizing before with
  | nil => simpa [operatorTokens] using h
  | cons op ops ih =>
    rw [List.flatten_cons, List.append_assoc, operatorTokens, ← Position.behind_append]
    refine .of_literal (hne op List.mem_cons_self) String.toList_ofList.symm rfl ?_
    refine ih (fun op' hop => hne op' (List.mem_cons_of_mem op hop)) ?_
    rwa [List.append_assoc, ← List.flatten_cons]

/-! ### The tiling of a source -/

theorem Tiles.of_piece (hproper : piece.Proper) (hends : piece.EndsBefore text) (hne : piece.text ≠ [])
    (h : Tiles (before ++ piece.text) text tokens) :
    Tiles before (piece.text ++ text) (piece.tokens (.behind before) ++ tokens) := by
  cases piece with
  | blank _ | lineComment _ | blockComment _ => exact h.of_gap trivial hproper hends
  | word literal | numeral literal => exact .of_literal hne String.toList_ofList.symm rfl h
  | quotation quote body =>
    refine .of_literal hne ⟨quote, hproper.1, ?_⟩ rfl h
    exact congrArg (fun inner => quote :: (inner ++ [quote])) String.toList_ofList.symm
  | mark c => exact .of_literal hne (String.toList_singleton c).symm rfl h
  | operators run =>
    obtain ⟨hflatten, hops⟩ := splitRun_spec run
    have htiles : Tiles (before ++ (splitRun run).flatten) text tokens := hflatten.symm ▸ h
    have hwhole := htiles.of_operators hops
    rw [hflatten] at hwhole
    exact hwhole

theorem Cut.tiles (h : Cut text pieces []) (before : List Char) :
    Tiles before text (tokensOf (.behind before) pieces) := by
  induction h using Cut.end_induction generalizing before with
  | done => exact .last .empty
  | @next piece tail pieces hproper hends hne _ ih =>
    rw [tokensOf, ← Position.behind_append]
    exact (ih (before ++ piece.text)).of_piece hproper hends hne

/-- The tokens of an accepted source tile it. A refused source is refused at a character of it
that stands at the reported position, and what stands before that character is accepted. -/
theorem tokenize_tiles (source : String) :
    match tokenize source with
    | .ok tokens => Tiles [] source.toList tokens
    | .error e => ∃ before rest, source.toList = before ++ e.char :: rest ∧
        e.position = .behind before ∧ ∃ tokens, tokenize (String.ofList before) = .ok tokens := by
  cases h : tokenize source with
  | ok tokens =>
    obtain ⟨pieces, hcut, rfl⟩ := tokensFrom_eq_ok_iff.mp h
    exact hcut.tiles []
  | error e =>
    obtain ⟨pieces, more, hcut, hposition, -⟩ := tokensFrom_eq_error h
    refine ⟨spelled pieces, more, hcut.spelled.symm, ?_, tokensOf .start pieces, ?_⟩
    · rw [hposition, Position.start_after]
    · rw [tokenize, String.toList_ofList]
      exact tokensFrom_of_cut_nil hcut.of_spelled _

end StepWorld
