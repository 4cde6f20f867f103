import StepWorld.Proofs.Syntax.Tiling

/-! Runs of operator characters. A run is cut from the front: each time the longest known operator
comes off, and a rest that begins with no known operator stays whole. -/

namespace StepWorld

variable {text run op : List Char} {ops : List (List Char)} {t : Token} {before after : List Token}
  {place : Position}

/-- The longest known operator that a text begins with. -/
structure LongestOperator (text op : List Char) : Prop where
  known : String.ofList op ∈ knownOperators
  begins : op <+: text
  longest : ∀ other ∈ knownOperators, other.toList <+: text → other.toList.length ≤ op.length

def BeginsUnknown (text : List Char) : Prop := ∀ op ∈ knownOperators, ¬ op.toList <+: text

theorem longestOperator?_longest (h : longestOperator? text = some op) :
    LongestOperator text op := by
  have hsorted : (knownOperators.map String.toList).Pairwise fun a b => b.length ≤ a.length := by
    decide
  obtain ⟨hbegins, earlier, later, hsplit, hearlier⟩ := List.find?_eq_some_iff_append.mp h
  rw [hsplit, List.pairwise_append, List.pairwise_cons] at hsorted
  obtain ⟨-, ⟨hlater, -⟩, -⟩ := hsorted
  have hmem : op ∈ knownOperators.map String.toList := hsplit ▸ by simp
  obtain ⟨name, hname, rfl⟩ := List.mem_map.mp hmem
  refine ⟨by simpa using hname, List.isPrefixOf_iff_prefix.mp hbegins, fun other hother hprefix => ?_⟩
  have hother' : other.toList ∈ earlier ++ name.toList :: later :=
    hsplit ▸ List.mem_map_of_mem hother
  rcases List.mem_append.mp hother' with hmem | hmem
  · -- Whatever is tried before does not begin the text.
    have hfails := hearlier _ hmem
    simp [List.isPrefixOf_iff_prefix.mpr hprefix] at hfails
  · rcases List.mem_cons.mp hmem with heq | hmem
    · exact Nat.le_of_eq (congrArg List.length heq)
    · exact hlater _ hmem

theorem longestOperator?_unknown (h : longestOperator? text = none) : BeginsUnknown text := by
  intro name hname hprefix
  have hfails := List.find?_eq_none.mp h _ (List.mem_map_of_mem hname)
  exact hfails (List.isPrefixOf_iff_prefix.mpr hprefix)

theorem splitRun_longest {earlier later : List (List Char)}
    (h : splitRun run = earlier ++ op :: later) :
    LongestOperator (run.drop earlier.flatten.length) op ∨
      later = [] ∧ op = run.drop earlier.flatten.length ∧
        BeginsUnknown (run.drop earlier.flatten.length) := by
  induction run using splitRun.induct generalizing earlier with
  | case1 => simp [splitRun] at h
  | case2 c rest first hfirst ih =>
    rw [splitRun, hfirst] at h
    cases earlier with
    | nil =>
      obtain ⟨rfl, -⟩ := List.cons.inj h
      exact .inl (longestOperator?_longest hfirst)
    | cons first' earlier =>
      obtain ⟨rfl, hrest⟩ := List.cons.inj h
      have hpos : 0 < first.length := List.length_pos_iff.mpr (longestOperator?_begins hfirst).2
      have hdrop : (c :: rest).drop (first :: earlier).flatten.length =
          (rest.drop (first.length - 1)).drop earlier.flatten.length := by
        rw [List.flatten_cons, List.length_append, List.drop_drop,
          show first.length + earlier.flatten.length =
            first.length - 1 + earlier.flatten.length + 1 by omega, List.drop_succ_cons]
      rw [hdrop]
      exact ih hrest
  | case3 c rest hnone =>
    rw [splitRun, hnone] at h
    cases earlier with
    | nil =>
      obtain ⟨rfl, rfl⟩ := List.cons.inj h
      exact .inr ⟨rfl, rfl, longestOperator?_unknown hnone⟩
    | cons first earlier => simp at h

/-! ### Tokens side by side -/

theorem position_operatorTokens (h : operatorTokens place ops = before ++ t :: after) :
    t.position = place.after (before.flatMap (·.value.toList)) := by
  induction ops generalizing place before with
  | nil => simp [operatorTokens] at h
  | cons op ops ih =>
    rw [operatorTokens] at h
    cases before with
    | nil =>
      obtain ⟨rfl, -⟩ := List.cons.inj h
      rfl
    | cons first before =>
      obtain ⟨rfl, hrest⟩ := List.cons.inj h
      rw [ih hrest, ← Position.after_append]
      simp

/-- A run of operator characters is cut by maximal munch into tokens side by side. -/
theorem run_cut_longest_first (place : Position) (hne : run ≠ [])
    (hrun : ∀ c ∈ run, isOperatorChar c = true ∨ c = '/') :
    let tokens := (Piece.operators run).tokens place
    tokens ≠ [] ∧ (∀ t ∈ tokens, t.kind = .operator ∧ t.value ≠ "") ∧
    tokens.flatMap (·.value.toList) = run ∧
    ∀ before t after, tokens = before ++ t :: after →
      let offset := (before.flatMap (·.value.toList)).length
      t.position = ⟨place.line, place.column + offset⟩ ∧
      (LongestOperator (run.drop offset) t.value.toList ∨
        after = [] ∧ t.value.toList = run.drop offset ∧ BeginsUnknown (run.drop offset)) := by
  intro tokens
  have hvalues : tokens.map (·.value.toList) = splitRun run := values_operatorTokens place _
  obtain ⟨hflatten, hops⟩ := splitRun_spec run
  have hwhole : tokens.flatMap (·.value.toList) = run := by
    rw [List.flatMap_def, hvalues, hflatten]
  refine ⟨?_, fun t ht => ⟨kind_of_mem_operatorTokens ht, ?_⟩, hwhole, ?_⟩
  · intro hnil
    rw [hnil] at hwhole
    exact hne hwhole.symm
  · intro hempty
    exact hops _ (value_mem_of_mem_operatorTokens ht) (by rw [hempty]; rfl)
  · intro before t after hsplit offset
    have hline : '\n' ∉ before.flatMap (·.value.toList) := by
      intro hmem
      have hchar : '\n' ∈ run := by
        rw [← hwhole, hsplit, List.flatMap_append]
        exact List.mem_append_left _ hmem
      exact absurd (hrun _ hchar) (by decide)
    refine ⟨(position_operatorTokens hsplit).trans (place.after_of_line hline), ?_⟩
    rw [hsplit, List.map_append, List.map_cons] at hvalues
    rcases splitRun_longest hvalues.symm with hlongest | ⟨hlast, hrest, hunknown⟩
    · exact .inl hlongest
    · exact .inr ⟨List.map_eq_nil_iff.mp hlast, hrest, hunknown⟩

def mixedRun : List Char := ['<', '=', '-', '>', '^', '-']

theorem tokens_mixedRun : (Piece.operators mixedRun).tokens ⟨2, 5⟩ =
    [⟨.operator, "<=", ⟨2, 5⟩⟩, ⟨.operator, "->", ⟨2, 7⟩⟩, ⟨.operator, "^-", ⟨2, 9⟩⟩] := by
  decide +kernel

/-- The rest stays whole, although there is an operator in it. -/
theorem run_cut_longest_first_mixed :
    mixedRun ≠ [] ∧ (∀ c ∈ mixedRun, isOperatorChar c = true ∨ c = '/') ∧
    LongestOperator ['-', '>', '^', '-'] ['-', '>'] ∧ BeginsUnknown ['^', '-'] := by
  have hne : mixedRun ≠ [] := by decide
  have hrun : ∀ c ∈ mixedRun, isOperatorChar c = true ∨ c = '/' := by
    simp [mixedRun, isOperatorChar]
  obtain ⟨-, -, -, hcut⟩ := run_cut_longest_first ⟨2, 5⟩ hne hrun
  obtain ⟨-, harrow⟩ := hcut [_] _ _ tokens_mixedRun
  obtain ⟨-, hrest⟩ := hcut [_, _] _ _ tokens_mixedRun
  refine ⟨hne, hrun, harrow.resolve_right fun h => ?_, (hrest.resolve_left fun h => ?_).2.2⟩
  · exact absurd h.1 (by decide)
  · exact absurd h.known (by decide)

end StepWorld
