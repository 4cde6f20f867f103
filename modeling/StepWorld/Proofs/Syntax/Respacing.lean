import StepWorld.Proofs.Outcomes
import StepWorld.Proofs.Syntax.Spelling

/-! Tokens written anew. What is cut off as a token does not depend on what stood around it: the
literals of the tokens of a source, with single spaces between them, are cut into the same tokens. -/

namespace StepWorld

variable {run op before after tail text : List Char} {pieces : List Piece} {token : Token}
  {tokens : List Token}

def Token.content (t : Token) : TokenKind × String := (t.kind, t.value)

/-- The quote in which a text is written: a single one if there are double ones inside. -/
def quoteAround (text : List Char) : Char := if '"' ∈ text then '\'' else '"'

def Token.literal (t : Token) : String :=
  match t.kind with
  | .string =>
    let quote := String.singleton (quoteAround t.value.toList)
    quote ++ t.value ++ quote
  | _ => t.value

def respaced (tokens : List Token) : String := String.intercalate " " (tokens.map Token.literal)

/-! ### Parts of a run -/

theorem takeRun_of_part (h : takeRun (before ++ (op ++ after)) = (before ++ (op ++ after), [])) :
    takeRun op = (op, []) := by
  induction before with
  | cons c before ih => exact ih (takeRun_cons h).2
  | nil =>
    induction op with
    | nil => rfl
    | cons c op ih =>
      obtain ⟨hc, hrest⟩ := takeRun_cons h
      refine takeRun_of_cons ?_ (ih hrest)
      rcases hc with hc | ⟨hslash, hopen⟩
      · exact .inl hc
      · cases op with
        | nil => exact .inr ⟨hslash, rfl⟩
        | cons d op => exact .inr ⟨hslash, hopen⟩

theorem takeRun_of_mem_splitRun (h : takeRun (run ++ tail) = (run, tail)) (hop : op ∈ splitRun run) :
    takeRun op = (op, []) := by
  have hrun : takeRun run = (run, []) := by
    have hshort := takeRun_of_shorter h (List.nil_prefix (l := tail)) fun _ => rfl
    rwa [List.append_nil] at hshort
  obtain ⟨before, after, hsplit⟩ := List.append_of_mem hop
  have hflat : before.flatten ++ (op ++ after.flatten) = run := by
    rw [← (splitRun_spec run).1, hsplit, List.flatten_append, List.flatten_cons]
  rw [← hflat] at hrun
  exact takeRun_of_part hrun

/-- An operator of a run is not split again, be it a known one or the tail that stays whole. -/
theorem splitRun_of_mem_splitRun (hop : op ∈ splitRun run) : splitRun op = [op] := by
  induction run using splitRun.induct with
  | case1 => simp [splitRun] at hop
  | case2 c rest known hknown ih =>
    rw [splitRun, hknown] at hop
    rcases List.mem_cons.mp hop with rfl | hop
    · obtain ⟨name, hname, rfl⟩ := List.mem_map.mp (List.mem_of_find?_eq_some hknown)
      obtain ⟨-, hlongest, hne⟩ := known_operators name hname
      obtain ⟨d, more, htext⟩ := List.exists_cons_of_ne_nil hne
      rw [htext] at hlongest ⊢
      exact splitRun_of_longest hlongest
    · exact ih hop
  | case3 c rest hnone =>
    rw [splitRun, hnone] at hop
    rw [List.mem_singleton.mp hop, splitRun, hnone]

/-! ### Literals between spaces -/

structure Token.Relexes (t : Token) : Prop where
  starts : ∃ c more, t.literal.toList = c :: more ∧ isBlank c = false
  spells : ∀ tail : List Char, (∀ c ∈ tail.head?, c = ' ') →
    Spells t.literal.toList tail (Lone t.kind t.value)

theorem Token.Relexes.of_content {t u : Token} (h : t.Relexes) (heq : u.content = t.content) :
    u.Relexes := by
  obtain ⟨hkind, hvalue⟩ := Prod.mk.inj heq
  have hliteral : u.literal = t.literal := by simp only [literal, hkind, hvalue]
  refine ⟨?_, fun tail htail => ?_⟩
  · rw [hliteral]
    exact h.starts
  · rw [hliteral, hkind, hvalue]
    exact h.spells tail htail

/-- A piece with one token whose literal is the piece. -/
theorem relexes_of_piece {piece : Piece} {c : Char} {more : List Char} (hproper : piece.Proper)
    (htext : piece.text = c :: more) (hblank : isBlank c = false)
    (hends : ∀ tail : List Char, (∀ c ∈ tail.head?, c = ' ') → piece.EndsBefore tail)
    (htoken : ∀ place, piece.tokens place = [⟨token.kind, token.value, place⟩])
    (hliteral : token.literal.toList = piece.text) : token.Relexes := by
  refine ⟨⟨c, more, hliteral.trans htext, hblank⟩, fun tail htail => ?_⟩
  have hne : piece.text ≠ [] := htext ▸ List.cons_ne_nil c more
  rw [hliteral]
  refine (Spells.of_piece piece hproper (hends tail htail) hne).mono ?_
  rintro ts ⟨place, rfl⟩
  exact ⟨place, htoken place⟩

theorem relexes_word (hproper : (Piece.word text).Proper) (place : Position) :
    Token.Relexes ⟨.identifier, String.ofList text, place⟩ := by
  obtain ⟨c, more, rfl, hc, -⟩ := id hproper
  have hrange := isWordStart_range hc
  have hblank : isBlank c = false := isBlank_eq_false_of_range (by omega)
  refine relexes_of_piece hproper rfl hblank (fun tail htail d hd => ?_) (fun _ => rfl)
    String.toList_ofList
  rw [htail d hd]
  decide

theorem relexes_numeral (hproper : (Piece.numeral text).Proper) (place : Position) :
    Token.Relexes ⟨.number, String.ofList text, place⟩ := by
  obtain ⟨c, more, rfl⟩ := List.exists_cons_of_ne_nil (numeral_ne_nil hproper)
  have hrange := isDigit_range (numeral_cons hproper)
  have hblank : isBlank c = false := isBlank_eq_false_of_range (by omega)
  refine relexes_of_piece hproper rfl hblank
    (fun tail htail => ⟨fun d hd => ?_, fun _ _ _ hdot => ?_⟩) (fun _ => rfl) String.toList_ofList
  · rw [htail d hd]
    decide
  · exact absurd (htail '.' hdot) (by decide)

theorem relexes_quotation {quote : Char} (hproper : (Piece.quotation quote text).Proper)
    (place : Position) : Token.Relexes ⟨.string, String.ofList text, place⟩ := by
  have hchosen : (Piece.quotation (quoteAround text) text).Proper := by
    obtain ⟨hquote, hnot⟩ := hproper
    unfold quoteAround
    split
    · next hdouble =>
      rcases hquote with rfl | rfl
      · exact absurd hdouble hnot
      · exact ⟨.inr rfl, hnot⟩
    · next hdouble => exact ⟨.inl rfl, hdouble⟩
  have hblank : isBlank (quoteAround text) = false := by
    rcases hchosen.1 with hquote | hquote <;> rw [hquote] <;> decide
  refine relexes_of_piece hchosen rfl hblank (fun _ _ => trivial) (fun _ => rfl) ?_
  simp [Token.literal, Piece.text]

theorem relexes_mark {c : Char} (hproper : (Piece.mark c).Proper) (place : Position) :
    Token.Relexes ⟨.punctuation, String.singleton c, place⟩ :=
  relexes_of_piece hproper rfl (begins_only_signs (.inr hproper)).1 (fun _ _ => trivial)
    (fun _ => rfl) (String.toList_singleton c)

theorem relexes_operator (hne : op ≠ []) (hrun : takeRun op = (op, [])) (hsplit : splitRun op = [op])
    (place : Position) : Token.Relexes ⟨.operator, String.ofList op, place⟩ := by
  have hproper : (Piece.operators op).Proper := hne
  obtain ⟨c, more, rfl⟩ := List.exists_cons_of_ne_nil hne
  have hblank : isBlank c = false := by
    rcases (takeRun_cons hrun).1 with hoperator | ⟨rfl, -⟩
    · exact (begins_only_signs (.inl hoperator)).1
    · decide
  refine relexes_of_piece hproper rfl hblank (fun tail htail => ?_) (fun place => ?_)
    String.toList_ofList
  · show takeRun (c :: more ++ tail) = (c :: more, tail)
    cases tail with
    | nil => rwa [List.append_nil]
    | cons d tail =>
      rw [htail d rfl]
      exact takeRun_before_blank hrun
  · rw [Piece.tokens, hsplit]
    rfl

theorem content_of_mem_operatorTokens {place : Position} {ops : List (List Char)}
    (h : token ∈ operatorTokens place ops) :
    ∃ op ∈ ops, token.content = (.operator, String.ofList op) := by
  refine ⟨_, value_mem_of_mem_operatorTokens h, ?_⟩
  rw [Token.content, kind_of_mem_operatorTokens h, String.ofList_toList]

theorem relexes_of_mem_piece {piece : Piece} {place : Position} (hproper : piece.Proper)
    (hends : piece.EndsBefore tail) (h : token ∈ piece.tokens place) : token.Relexes := by
  cases piece with
  | blank _ | lineComment _ | blockComment _ => cases h
  | word text =>
    obtain rfl := List.mem_singleton.mp h
    exact relexes_word hproper place
  | numeral text =>
    obtain rfl := List.mem_singleton.mp h
    exact relexes_numeral hproper place
  | quotation quote body =>
    obtain rfl := List.mem_singleton.mp h
    exact relexes_quotation hproper place
  | mark c =>
    obtain rfl := List.mem_singleton.mp h
    exact relexes_mark hproper place
  | operators run =>
    obtain ⟨op, hop, hcontent⟩ := content_of_mem_operatorTokens h
    have hrelexes : Token.Relexes ⟨.operator, String.ofList op, place⟩ :=
      relexes_operator ((splitRun_spec run).2 op hop) (takeRun_of_mem_splitRun hends hop)
        (splitRun_of_mem_splitRun hop) place
    exact hrelexes.of_content hcontent

theorem relexes_of_cut (h : Cut text pieces []) :
    ∀ place, ∀ t ∈ tokensOf place pieces, t.Relexes := by
  induction h using Cut.end_induction with
  | done => exact fun place t ht => absurd ht List.not_mem_nil
  | next hproper hends _ _ ih =>
    intro place t ht
    rcases List.mem_append.mp ht with ht | ht
    · exact relexes_of_mem_piece hproper hends ht
    · exact ih _ t ht

theorem literal_begins_respaced (token : Token) (rest : List Token) :
    ∃ behind, (respaced (token :: rest)).toList = token.literal.toList ++ behind := by
  cases rest with
  | nil => exact ⟨[], (List.append_nil _).symm⟩
  | cons next rest =>
    refine ⟨[' '] ++ (respaced (next :: rest)).toList, ?_⟩
    simp [respaced, String.intercalate_cons_cons]

theorem spells_respaced (h : ∀ t ∈ tokens, t.Relexes) :
    Spells (respaced tokens).toList [] fun ts =>
      ts.map Token.content = tokens.map Token.content := by
  induction tokens with
  | nil => exact Spells.nil rfl
  | cons token rest ih =>
    obtain ⟨htoken, hrest⟩ := List.forall_mem_cons.mp h
    cases rest with
    | nil =>
      show Spells token.literal.toList [] _
      refine (htoken.spells [] fun c hc => nomatch hc).mono ?_
      rintro ts ⟨place, rfl⟩
      rfl
    | cons next rest =>
      have htext : (respaced (token :: next :: rest)).toList =
          token.literal.toList ++ ([' '] ++ (respaced (next :: rest)).toList) := by
        simp [respaced, String.intercalate_cons_cons]
      -- The rest begins as its first literal does, so the space before it is a gap of its own.
      have hstarts : ∀ c ∈ ((respaced (next :: rest)).toList ++ []).head?, isBlank c = false := by
        obtain ⟨c, more, hliteral, hblank⟩ := (hrest next List.mem_cons_self).starts
        intro d hd
        obtain ⟨behind, hbehind⟩ := literal_begins_respaced next rest
        rw [hbehind, hliteral] at hd
        cases hd
        exact hblank
      rw [htext]
      have hspaced := (spells_blank hstarts).append (ih hrest)
      refine ((htoken.spells _ fun c hc => ?_).append hspaced).mono ?_
      · cases hc
        rfl
      · rintro _ ⟨_, _, rfl, ⟨place, rfl⟩, _, vs, rfl, rfl, hvs⟩
        show _ :: vs.map Token.content = _
        rw [hvs]
        rfl

/-- The tokens of an accepted source, written with single spaces between them, are a source that is
accepted with tokens of the same kinds and values. -/
theorem tokenize_respaced {source : String} {tokens : List Token}
    (h : tokenize source = .ok tokens) : ∃ again, tokenize (respaced tokens) = .ok again ∧
      again.map Token.content = tokens.map Token.content := by
  obtain ⟨pieces, hcut, rfl⟩ := tokensFrom_eq_ok_iff.mp h
  obtain ⟨again, hcontent, hagain⟩ := (spells_respaced (relexes_of_cut hcut .start)).tokenize
  exact ⟨again, hagain, hcontent⟩

/-- A sign behind an operator, marks of comments in a comment and in a string, a quote in another
one, a point behind a number, and a tail of a run that begins with no operator. -/
def dense : String := "x>-1//*y\n'\"/*'+\"it's\"1.5.z&&^/="

theorem tokenize_respaced_dense : ∃ tokens again, tokenize dense = .ok tokens ∧
    respaced tokens = "x > - 1 '\"/*' + \"it's\" 1.5 . z && ^/=" ∧
    tokenize (respaced tokens) = .ok again ∧
    again.map Token.content = tokens.map Token.content := by
  have hruns : (tokenize dense).toOption.any
      (fun tokens => respaced tokens == "x > - 1 '\"/*' + \"it's\" 1.5 . z && ^/=") = true := by
    decide +kernel
  obtain ⟨tokens, htokens, htext⟩ := (Option.any_eq_true _ _).mp hruns
  have hread : tokenize dense = .ok tokens := toOption_eq_some_iff.mp htokens
  obtain ⟨again, hagain, hcontent⟩ := tokenize_respaced hread
  exact ⟨tokens, again, hread, beq_iff_eq.mp htext, hagain, hcontent⟩

end StepWorld
