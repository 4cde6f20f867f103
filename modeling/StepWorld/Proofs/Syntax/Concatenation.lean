import StepWorld.Proofs.Syntax.DeclarationLocality

/-! One source below another one. No definition reaches into the other source; at most the run of
tokens passed over at the end of the first one goes on in the second. -/

namespace StepWorld

variable {first second : String} {p q : Program} {ts : List Token} {body : Body Declaration}

theorem declarations?_of_run {finish : Position} (skipping : Bool)
    (h : declarations? finish false ts = some body) :
    ∃ kept, (kept = body.skipped ∨ kept = body.skipped.tail) ∧
      declarations? finish skipping ts = some ⟨body.items, kept⟩ := by
  cases skipping with
  | false => exact ⟨body.skipped, .inl rfl, h⟩
  | true =>
    cases ts with
    | nil =>
      rw [declarations?_nil] at h
      cases h
      exact ⟨[], .inl rfl, declarations?_nil finish true⟩
    | cons t ts =>
      rw [declarations?_cons] at h ⊢
      by_cases hentity : t.isWord "Entity" = true
      · rw [if_pos hentity] at h ⊢
        exact ⟨body.skipped, .inl rfl, h⟩
      · rw [if_neg hentity] at h ⊢
        by_cases hrule : t.isWord "Rule" = true
        · rw [if_pos hrule] at h ⊢
          exact ⟨body.skipped, .inl rfl, h⟩
        · rw [if_neg hrule] at h ⊢
          obtain ⟨rest, hrest, rfl⟩ := Option.map_eq_some_iff.mp h
          exact ⟨rest.skipped, .inr rfl, by rw [hrest]; rfl⟩

theorem carried_zero (more ts : List Token) : carried 0 more ts = ts ++ more :=
  congrArg (· ++ more) (List.map_id'' Token.down_zero ts)

theorem carried_nil_right (n : Nat) (ts : List Token) : carried n [] ts = ts.map (Token.down n) :=
  List.append_nil _

theorem Body.declarationsDown_zero (body : Body Declaration) : body.declarationsDown 0 = body := by
  have hitem (item : Declaration) : item.down 0 = item := by cases item <;> rfl
  have hrun (run : SkippedRun) : run.down 0 = run := rfl
  rw [Body.declarationsDown, List.map_id'' hitem, List.map_id'' hrun]

theorem Body.append_empty (body : Body Declaration) : body.append .empty = body := by
  simp [Body.append, Body.empty]

theorem Program.ofDeclarations_append (body behind : Body Declaration) :
    Program.ofDeclarations (body.append behind) =
      ⟨(Program.ofDeclarations body).entities ++ (Program.ofDeclarations behind).entities,
        (Program.ofDeclarations body).rules ++ (Program.ofDeclarations behind).rules,
        body.skipped ++ behind.skipped⟩ := by
  simp only [Program.ofDeclarations, Body.append, List.filterMap_append]

theorem Program.ofDeclarations_down (n : Nat) (body : Body Declaration) :
    Program.ofDeclarations (body.declarationsDown n) =
      ⟨(Program.ofDeclarations body).entities.map (EntityDecl.down n),
        (Program.ofDeclarations body).rules, body.skipped.map (SkippedRun.down n)⟩ := by
  simp only [Program.ofDeclarations, Body.declarationsDown, List.filterMap_map, List.map_filterMap]
  congr 1 <;>
    exact congrArg (List.filterMap · body.items) (funext fun item => by cases item <;> rfl)

theorem exists_declarations?_of_readProgram (h : readProgram first = .ok p) :
    ∃ ts body, tokenize first = .ok ts ∧ declarations? (endPosition ts) false ts = some body ∧
      p = .ofDeclarations body := by
  unfold readProgram at h
  split at h
  · cases h
  · next ts hts =>
    obtain ⟨body, hbody, rfl⟩ := programOfTokens_eq_ok_iff_declarations?.mp h
    exact ⟨ts, body, hts, hbody, rfl⟩

/-- Two sources with a line end between are read as the program of both. -/
theorem readProgram_concatenated (hp : readProgram first = .ok p)
    (hq : readProgram second = .ok q) :
    let n := 1 + first.toList.count '\n'
    ∃ kept, (kept = q.warnings ∨ kept = q.warnings.tail) ∧
      readProgram (first ++ "\n" ++ second) =
        .ok ⟨p.entities ++ q.entities.map (EntityDecl.down n), p.rules ++ q.rules,
          p.warnings ++ kept.map (SkippedRun.down n)⟩ := by
  intro n
  obtain ⟨ts, body, hts, hbody, rfl⟩ := exists_declarations?_of_readProgram hp
  obtain ⟨us, body', hus, hbody', rfl⟩ := exists_declarations?_of_readProgram hq
  obtain ⟨skipping, hfirst⟩ := declarations?_carried 0 hbody
  obtain ⟨kept, hkept, hrun⟩ := declarations?_of_run skipping hbody'
  obtain ⟨last, hsecond⟩ := declarations?_carried n hrun
  refine ⟨kept, hkept, ?_⟩
  let all := ts ++ us.map (Token.down n)
  let below : Body Declaration := Body.declarationsDown n ⟨body'.items, kept⟩
  have hread : declarations? (endPosition all) false all = some (body.append below) := by
    have hfirst := hfirst (endPosition all) (us.map (Token.down n))
    have hsecond := hsecond (endPosition all) []
    rw [carried_zero, Body.declarationsDown_zero] at hfirst
    rw [carried_nil_right, declarations?_nil] at hsecond
    rw [hfirst, hsecond]
    change some (body.append (below.append .empty)) = _
    rw [Body.append_empty]
  rw [readProgram, tokenize_seam hts hus]
  refine programOfTokens_eq_ok_iff_declarations?.mpr ⟨_, hread, ?_⟩
  rw [Program.ofDeclarations_append, Program.ofDeclarations_down]
  rfl

def entityLines (source : String) : Option (List (String × Nat)) :=
  (readProgram source).toOption.map fun p => p.entities.map fun e => (e.name, e.line)

theorem exists_of_entityLines {source : String} {found : List (String × Nat)}
    (h : entityLines source = some found) :
    ∃ p, readProgram source = .ok p ∧ p.entities.map (fun e => (e.name, e.line)) = found := by
  obtain ⟨p, hp, hfound⟩ := Option.map_eq_some_iff.mp h
  exact ⟨p, toOption_eq_some_iff.mp hp, hfound⟩

/-- A sign at the end of the first source does not merge with one that begins the second. -/
theorem readProgram_concatenated_signs :
    ∃ p, readProgram ("Entity A \x7b\x7d // a\n -" ++ "\n" ++ "> Entity B \x7b\x7d") = .ok p ∧
      p.entities.map (fun e => (e.name, e.line)) = [("A", 1), ("B", 3)] := by
  have hfirst : entityLines "Entity A \x7b\x7d // a\n -" = some [("A", 1)] := by decide +kernel
  have hsecond : entityLines "> Entity B \x7b\x7d" = some [("B", 1)] := by decide +kernel
  obtain ⟨p, hp, hlines⟩ := exists_of_entityLines hfirst
  obtain ⟨q, hq, hlines'⟩ := exists_of_entityLines hsecond
  obtain ⟨kept, -, hread⟩ := readProgram_concatenated hp hq
  refine ⟨_, hread, ?_⟩
  have hdown : (q.entities.map (EntityDecl.down 2)).map (fun e => (e.name, e.line)) =
      (q.entities.map fun e => (e.name, e.line)).map fun e => (e.1, e.2 + 2) := by
    rw [List.map_map, List.map_map]
    rfl
  change (p.entities ++ q.entities.map (EntityDecl.down 2)).map _ = _
  rw [List.map_append, hlines, hdown, hlines']
  rfl

end StepWorld
