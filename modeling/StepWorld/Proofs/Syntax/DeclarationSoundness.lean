import StepWorld.Proofs.Syntax.DeclarationGrammar
import StepWorld.Proofs.Syntax.ReaderSoundness
import StepWorld.Proofs.Syntax.TakenDeclarations

/-! What the readers of declarations take is derived by the lax grammar, and where they passed
nothing over by the strict one. -/

namespace StepWorld

variable {α : Type} {t : Token} {ts mid rest : List Token} {finish : Position}
  {place : Surroundings} {skipping : Bool}

/-! ### Types and properties -/

theorem integerAtFront_eq_some_iff {change : Int → Int} {n : Int} :
    integerAtFront change ts = some (n, rest) ↔
      ∃ t m, ts = t :: rest ∧ t.kind = .number ∧ isShortNumeral t.value = true ∧
        numeralValue t.value = .whole m ∧ change m = n := by
  cases ts with
  | nil => simp [integerAtFront]
  | cons t tail =>
    by_cases hk : t.kind = .number
    · simp only [integerAtFront, hk, beq_self_eq_true, if_true]
      constructor
      · intro h
        split at h
        · next m hm =>
          obtain ⟨hshort, hvalue⟩ := numeralNumber_eq_ok_iff.mp hm
          cases h
          exact ⟨t, m, rfl, hk, hshort, hvalue.symm, rfl⟩
        · cases h
      · rintro ⟨u, m, he, -, hshort, hvalue, rfl⟩
        cases he
        rw [numeralNumber_eq_ok_iff.mpr ⟨hshort, hvalue.symm⟩]
    · simp only [integerAtFront]
      grind

theorem takeInteger_sound {n : Int} (h : taken (takeInteger finish ts) = some (n, rest)) :
    DerivesInteger ts rest n := by
  rw [taken_takeInteger] at h
  cases ts with
  | nil => cases h
  | cons t tail =>
    by_cases hminus : t.isOperator "-" = true
    · simp only [hminus, if_true] at h
      obtain ⟨u, m, rfl, hu, -, hvalue, rfl⟩ := integerAtFront_eq_some_iff.mp h
      exact .negated hminus hu hvalue
    · simp only [hminus, Bool.false_eq_true, if_false] at h
      obtain ⟨u, m, he, hu, -, hvalue, rfl⟩ := integerAtFront_eq_some_iff.mp h
      cases he
      exact .plain hu hvalue

theorem taken_takeMember :
    taken (takeMember finish ts) = some (t, rest) ↔
      ts = t :: rest ∧ (t.kind = .string ∨ t.kind = .identifier) := by
  simp [takeMember, taken_takeToken]

theorem readNextMembers_sound {member : Token} {members : List String}
    (hm : member.kind = .string ∨ member.kind = .identifier)
    (h : taken (readMembers finish false ts) = some (members, rest)) :
    DerivesMembers (member :: ts) rest (member.value :: members) := by
  induction hsize : ts.length using Nat.strongRecOn generalizing ts member members with
  | ind size ih =>
    cases ts with
    | nil => simp at h
    | cons t tail =>
      rw [taken_readMembers_cons] at h
      by_cases hclose : t.isMark ')' = true
      · simp only [hclose, if_true] at h
        cases h
        exact .last hm hclose
      · simp only [hclose, Bool.false_eq_true, if_false, Option.bind_eq_some_iff, Prod.exists,
          Option.map_eq_some_iff, taken_takeMark, taken_takeMember] at h
        obtain ⟨_, ⟨comma, next, ⟨he, hcomma⟩, rfl⟩, member', more, ⟨hnext, hm'⟩, members',
          final, hmembers, h⟩ := h
        cases he
        cases h
        simp only [List.length_cons] at hsize
        have hlen : more.length < size := by
          have hlength := congrArg List.length hnext
          simp only [List.length_cons] at hlength
          omega
        exact .more hm hcomma (hnext ▸ ih more.length hlen hm' hmembers rfl)

theorem readMembers_sound {name opening : Token} {members : List String}
    (hname : name.isWord "Enum") (hopen : opening.isMark '(')
    (h : taken (readMembers finish true ts) = some (members, rest)) :
    DerivesType (name :: opening :: ts) rest (.enum members) := by
  cases ts with
  | nil => simp at h
  | cons t tail =>
    rw [taken_readMembers_cons] at h
    by_cases hclose : t.isMark ')' = true
    · simp only [hclose, if_true] at h
      cases h
      exact .emptyEnum hname hopen hclose
    · simp only [hclose, Bool.false_eq_true, if_false, if_true, Option.bind_some,
        Option.bind_eq_some_iff, Prod.exists, taken_takeMember] at h
      obtain ⟨member, more, ⟨he, hm⟩, members', final, hmembers, h⟩ := h
      cases he
      cases h
      exact .enum hname hopen (readNextMembers_sound hm hmembers)

theorem isWord_of_kind {word : String} (hk : t.kind = .identifier) (hv : (t.value == word) = true) :
    t.isWord word = true := by
  simp only [beq_iff_eq] at hv
  simp [Token.isWord, hk, hv]

theorem readType_sound {type : PropertyType} (h : taken (readType finish ts) = some (type, rest)) :
    DerivesType ts rest type := by
  simp only [taken_readType, Option.bind_eq_some_iff, Prod.exists, taken_takeName] at h
  obtain ⟨name, more, ⟨rfl, hk⟩, h⟩ := h
  by_cases he : (name.value == "Enum") = true
  · simp only [he, if_true, Option.bind_eq_some_iff, Prod.exists, taken_takeMark] at h
    obtain ⟨opening, more, ⟨rfl, hopen⟩, members, final, hmembers, h⟩ := h
    cases h
    exact readMembers_sound (isWord_of_kind hk he) hopen hmembers
  · by_cases hi : (name.value == "Int" && startsWithMark '[' more) = true
    · simp only [he, hi, Bool.false_eq_true, if_false, if_true, Option.bind_eq_some_iff,
        Prod.exists, taken_takeMark] at h
      obtain ⟨opening, more, ⟨rfl, hopen⟩, minimum, after, hmin, comma, next, ⟨rfl, hcomma⟩,
        maximum, last, hmax, h⟩ := h
      split at h
      · cases h
      · next hle =>
        simp only [Option.bind_eq_some_iff, Prod.exists, taken_takeMark] at h
        obtain ⟨closing, final, ⟨rfl, hclose⟩, h⟩ := h
        cases h
        have hname : name.isWord "Int" = true :=
          isWord_of_kind hk (by simp only [Bool.and_eq_true] at hi; exact hi.1)
        exact .intRange hname hopen (takeInteger_sound hmin) hcomma (takeInteger_sound hmax) hclose
          (Int.not_lt.mp hle)
    · by_cases hl : (name.value == "List") = true
      · simp only [he, hi, hl, Bool.false_eq_true, if_false, if_true, Option.bind_eq_some_iff,
          Prod.exists, taken_takeOperator, taken_takeName] at h
        obtain ⟨opening, _, ⟨rfl, hopen⟩, element, _, ⟨rfl, helement⟩, closing, final,
          ⟨rfl, hclose⟩, h⟩ := h
        cases h
        exact .list (isWord_of_kind hk hl) hopen helement hclose
      · simp only [he, hi, hl, Bool.false_eq_true, if_false, Option.map_eq_some_iff] at h
        obtain ⟨type, htype, h⟩ := h
        cases h
        exact .scalar hk htype

theorem dropSeparator_nil (separators : List Char) : (dropSeparator separators []).1 = [] := rfl

theorem dropSeparator_cons (separators : List Char) (t : Token) (rest : List Token) :
    (dropSeparator separators (t :: rest)).1 =
      if separators.any t.isMark then rest else t :: rest := by
  unfold dropSeparator
  dsimp only
  split <;> rfl

theorem dropSeparator_length_le (separators : List Char) (ts : List Token) :
    (dropSeparator separators ts).1.length ≤ ts.length :=
  (dropSeparator separators ts).2

theorem readProperties_sound {properties : List PropertyDecl}
    (h : taken (readProperties finish ts) = some (properties, rest)) :
    DerivesProperties ts rest properties := by
  induction hsize : ts.length using Nat.strongRecOn generalizing ts properties with
  | ind size ih =>
    cases ts with
    | nil => simp at h
    | cons t tail =>
      rw [taken_readProperties_cons] at h
      by_cases hclose : t.isMark '}' = true
      · simp only [hclose, if_true] at h
        cases h
        exact .close hclose
      · simp only [hclose, Bool.false_eq_true, if_false, Option.bind_eq_some_iff, Prod.exists,
          taken_takeName, taken_takeMark] at h
        obtain ⟨name, _, ⟨he, hk⟩, colon, next, ⟨rfl, hcolon⟩, type, more, htype, properties',
          final, hproperties, h⟩ := h
        cases he
        cases h
        simp only [List.length_cons] at hsize
        have hmore := length_lt_of_taken htype
        have hdrop := dropSeparator_length_le [';', ','] more
        have hd := ih _ (by omega) hproperties rfl
        have htype := readType_sound htype
        cases more with
        | nil =>
          rw [dropSeparator_nil] at hd
          exact .property hk hcolon htype hd
        | cons s more =>
          rw [dropSeparator_cons] at hd
          by_cases hs : [';', ','].any s.isMark = true
          · rw [if_pos hs] at hd
            exact .separated hk hcolon htype (by simpa using hs) hd
          · rw [if_neg hs] at hd
            exact .property hk hcolon htype hd

/-! ### Clauses -/

theorem opensClause_iff {word : String} :
    t.opensClause word ts = true ↔
      t.isWord word = true ∧ ∃ colon rest, ts = colon :: rest ∧ colon.isMark ':' = true := by
  cases ts <;> simp [Token.opensClause, startsWithMark]

theorem exprClause_sound {word : String} {e : Expr} (hopens : t.opensClause word ts = true)
    (h : taken (readExpr finish 0 ts.tail) = some (e, rest)) :
    DerivesExprClause true word (t :: ts) rest e := by
  obtain ⟨hword, colon, tail, rfl, hcolon⟩ := opensClause_iff.mp hopens
  obtain ⟨hd, hstop⟩ := readExpr_sound h
  exact .clause hword hcolon hd fun _ => hstop

theorem isWord_and_startsWithMark :
    (t.isWord "P" && startsWithMark '[' ts) =
      (t.kind == .identifier && opensProbability t.value ts) := by
  simp only [Token.isWord, opensProbability, Bool.and_assoc]

theorem readWeighted_sound {effect : WeightedEffect} (hname : t.isWord "P")
    (h : taken (readWeighted finish ts) = some (effect, rest)) :
    DerivesEventClause true (t :: ts) rest (.weighted effect) := by
  simp only [taken_readWeighted, Option.bind_eq_some_iff, Prod.exists, taken_takeMark,
    taken_takeOperator] at h
  obtain ⟨opening, start, ⟨rfl, hopen⟩, e, _, he, closing, _, ⟨rfl, hclose⟩, equals, next,
    ⟨rfl, hequals⟩, weight, final, hweight, h⟩ := h
  cases h
  exact .weighted hname hopen (readExpr_sound he).1 hclose hequals (takeFloat_sound hweight)

theorem readEventClause_sound {clause : EventClause}
    (h : takenIfAny (readEventClause finish t ts) = some (some (clause, rest))) :
    DerivesEventClause true (t :: ts) rest clause := by
  rw [takenIfAny_readEventClause, ← isWord_and_startsWithMark] at h
  by_cases hc : t.opensClause "requires" ts = true
  · simp only [hc, if_true, Option.map_eq_some_iff, Prod.exists] at h
    obtain ⟨e, more, he, h⟩ := h
    cases h
    exact .condition (exprClause_sound hc he)
  · by_cases ht : t.opensClause "target" ts = true
    · simp only [hc, ht, Bool.false_eq_true, if_false, if_true, Option.map_eq_some_iff,
        Prod.exists, taken_takeName] at h
      obtain ⟨name, more, ⟨he, hk⟩, h⟩ := h
      cases h
      obtain ⟨hword, colon, tail, rfl, hcolon⟩ := opensClause_iff.mp ht
      cases he
      exact .target hword hcolon hk
    · by_cases he : t.opensClause "effect" ts = true
      · simp only [hc, ht, he, Bool.false_eq_true, if_false, if_true, Option.map_eq_some_iff,
          Prod.exists] at h
        obtain ⟨e, more, hread, h⟩ := h
        cases h
        exact .effect (exprClause_sound he hread)
      · by_cases hp : (t.isWord "P" && startsWithMark '[' ts) = true
        · simp only [hc, ht, he, hp, Bool.false_eq_true, if_false, if_true,
            Option.map_eq_some_iff, Prod.exists] at h
          obtain ⟨effect, more, hread, h⟩ := h
          cases h
          simp only [Bool.and_eq_true] at hp
          exact readWeighted_sound hp.1 hread
        · simp [hc, ht, he, hp] at h

theorem isSome_of_map_some {β γ : Type} {a : Option β} {make : β → γ} {found : Option γ}
    (h : a.map (fun b => some (make b)) = some found) : found.isSome = true := by
  obtain ⟨b, -, rfl⟩ := Option.map_eq_some_iff.mp h
  rfl

theorem isSome_of_readEventClause {found : Option (EventClause × List Token)}
    (h : takenIfAny (readEventClause finish t ts) = some found) :
    found.isSome = beginsEventClause t ts := by
  rw [takenIfAny_readEventClause, ← isWord_and_startsWithMark] at h
  unfold beginsEventClause
  simp only [List.any_cons, List.any_nil, Bool.or_false]
  split at h
  · next hc => simp [isSome_of_map_some h, hc]
  · split at h
    · next ht => simp [isSome_of_map_some h, ht]
    · split at h
      · next he => simp [isSome_of_map_some h, he]
      · split at h
        · next hp => simp [isSome_of_map_some h, hp]
        · cases h
          simp_all

theorem readRuleClause_sound {clause : RuleClause}
    (h : takenIfAny (readRuleClause finish t ts) = some (some (clause, rest))) :
    DerivesRuleClause true (t :: ts) rest clause := by
  rw [takenIfAny_readRuleClause] at h
  have hbelow := soundBelow (ts.length + 1)
  by_cases hc : t.opensClause "when" ts = true
  · simp only [hc, if_true, Option.map_eq_some_iff, Prod.exists] at h
    obtain ⟨e, more, he, h⟩ := h
    cases h
    exact .condition (exprClause_sound hc he)
  · by_cases he : t.opensClause "effect" ts = true
    · simp only [hc, he, Bool.false_eq_true, if_false, if_true, Option.map_eq_some_iff,
        Prod.exists] at h
      obtain ⟨e, more, hread, h⟩ := h
      cases h
      exact .effect (exprClause_sound he hread)
    · by_cases hk : t.kind = .identifier
      · simp only [hc, he, hk, beq_self_eq_true, Bool.false_eq_true, if_false, if_true] at h
        cases hop : temporalStart? t.value ts with
        | some op =>
          simp only [hop, Option.map_eq_some_iff, Prod.exists] at h
          obtain ⟨c, more, hread, h⟩ := h
          cases h
          exact .temporal hk (readTemporal_sound hbelow (Nat.le_succ _) hk
            (temporalStart?_eq_some_iff.mp hop).2 hread)
        | none =>
          by_cases hp : opensProbability t.value ts = true
          · simp only [hop, hp, if_true, Option.map_eq_some_iff, Prod.exists] at h
            obtain ⟨c, more, hread, h⟩ := h
            cases h
            have hword : t.isWord "P" = true := by
              simp only [opensProbability, Bool.and_eq_true] at hp
              exact isWord_of_kind hk hp.1
            exact .probability hk (readProbability_sound hbelow (Nat.le_succ _) hword hread)
          · simp [hop, hp] at h
      · simp [hc, he, hk] at h

theorem isSome_of_readRuleClause {found : Option (RuleClause × List Token)}
    (h : takenIfAny (readRuleClause finish t ts) = some found) :
    found.isSome = beginsRuleClause t ts := by
  rw [takenIfAny_readRuleClause] at h
  unfold beginsRuleClause
  rw [isWord_and_startsWithMark]
  simp only [List.any_cons, List.any_nil, Bool.or_false]
  split at h
  · next hc => simp [isSome_of_map_some h, hc]
  · split at h
    · next he => simp [isSome_of_map_some h, he]
    · split at h
      · next hk =>
        split at h
        · next op hop => simp [isSome_of_map_some h, hk, hop]
        · next hop =>
          split at h
          · next hp => simp [isSome_of_map_some h, hk, hp]
          · cases h
            simp_all
      · cases h
        simp_all

/-! ### Rows -/

section

variable {fits : List Token → Bool} {Part : List Token → List Token → Body α → Prop}
  {part body : Body α}

def ReadsRow (place : Surroundings) (fits : List Token → Bool)
    (Part : List Token → List Token → Body α → Prop) (skipping : Bool) (ts rest : List Token)
    (body : Body α) : Prop :=
  ∃ mid, (if skipping then Misfits fits ts mid else ts = mid) ∧
    DerivesRow true place fits Part mid rest body

theorem ReadsRow.row (h : ReadsRow place fits Part false ts rest body) :
    DerivesRow true place fits Part ts rest body := by
  obtain ⟨mid, hmid, hrow⟩ := h
  obtain rfl : ts = mid := by simpa using hmid
  exact hrow

theorem ReadsRow.of_row (hfits : fits ts = true)
    (h : DerivesRow true place fits Part ts rest body) :
    ReadsRow place fits Part skipping ts rest body := by
  refine ⟨ts, ?_, h⟩
  cases skipping with
  | false => rfl
  | true => exact .done hfits

theorem ReadsRow.skip (hfits : fits (t :: ts) = false)
    (h : ReadsRow place fits Part true ts rest body) :
    ReadsRow place fits Part skipping (t :: ts) rest (body.skip skipping t place) := by
  obtain ⟨mid, hmid, hrow⟩ := h
  cases skipping with
  | false => exact ⟨t :: ts, rfl, .run rfl hfits hmid hrow⟩
  | true => exact ⟨mid, .more hfits hmid, hrow⟩

theorem DerivesRow.strict {Part' : List Token → List Token → Body α → Prop}
    (hpart : ∀ ts rest part, Part ts rest part → part.skipped = [] → Part' ts rest part)
    (h : DerivesRow true place fits Part ts rest body) (hbody : body.skipped = []) :
    DerivesRow false place fits Part' ts rest body := by
  induction h with
  | nil => exact .nil
  | part hp _ ih =>
    obtain ⟨hfirst, hsecond⟩ := List.append_eq_nil_iff.mp hbody
    exact .part (hpart _ _ _ hp hfirst) (ih hsecond)
  | run => cases hbody

theorem DerivesBlock.strict {word : String} {around : String → Surroundings}
    {begins : Token → List Token → Bool} {keyword : Token} {name : String}
    {Part' : List Token → List Token → Body α → Prop}
    (hpart : ∀ ts rest part, Part ts rest part → part.skipped = [] → Part' ts rest part)
    (h : DerivesBlock true word around begins Part ts rest keyword name body)
    (hbody : body.skipped = []) :
    DerivesBlock false word around begins Part' ts rest keyword name body := by
  obtain ⟨hword, hname, hopen, hrow, hclose⟩ := h
  exact .block hword hname hopen (hrow.strict hpart hbody) hclose

end

theorem DerivesPart.mono {Clause Clause' : List Token → List Token → α → Prop} {part : Body α}
    (hclause : ∀ ts rest clause, Clause ts rest clause → Clause' ts rest clause)
    (h : DerivesPart Clause ts rest part) : DerivesPart Clause' ts rest part := by
  cases h with
  | semicolon ht => exact .semicolon ht
  | clause hc => exact .clause (hclause _ _ _ hc)

theorem DerivesExprClause.strict {word : String} {e : Expr}
    (h : DerivesExprClause true word ts rest e) : DerivesExprClause false word ts rest e := by
  obtain ⟨hword, hcolon, hd, -⟩ := h
  exact .clause hword hcolon hd (nofun)

theorem DerivesEventClause.strict {clause : EventClause}
    (h : DerivesEventClause true ts rest clause) : DerivesEventClause false ts rest clause := by
  cases h with
  | condition h => exact .condition h.strict
  | target hword hcolon hk => exact .target hword hcolon hk
  | effect h => exact .effect h.strict
  | weighted hname hopen hd hclose hequals hx => exact .weighted hname hopen hd hclose hequals hx

theorem DerivesRuleClause.strict {clause : RuleClause}
    (h : DerivesRuleClause true ts rest clause) : DerivesRuleClause false ts rest clause := by
  cases h with
  | condition h => exact .condition h.strict
  | effect h => exact .effect h.strict
  | temporal hk hd => exact .temporal hk hd
  | probability hk hd => exact .probability hk hd

theorem DerivesEntityPart.strict {part : Body EntityClause}
    (h : DerivesEntityPart true ts rest part) (hpart : part.skipped = []) :
    DerivesEntityPart false ts rest part := by
  cases h with
  | semicolon ht => exact .semicolon ht
  | state hword hopen hproperties => exact .state hword hopen hproperties
  | event h => exact .event (h.strict (fun _ _ _ hp _ => hp.mono fun _ _ _ => .strict) hpart)

theorem DerivesDeclaration.strict {part : Body Declaration}
    (h : DerivesDeclaration true ts rest part) (hpart : part.skipped = []) :
    DerivesDeclaration false ts rest part := by
  cases h with
  | entity h => exact .entity (h.strict (fun _ _ _ => .strict) hpart)
  | rule h => exact .rule (h.strict (fun _ _ _ hp _ => hp.mono fun _ _ _ => .strict) hpart)

theorem DerivesProgram.strict {program : Program} (h : DerivesProgram true ts program)
    (hwarnings : program.warnings = []) : DerivesProgram false ts program := by
  obtain ⟨hrow⟩ := h
  exact .program (hrow.strict (fun _ _ _ => .strict) hwarnings)

/-! ### Definitions -/

theorem readClauses_sound {Clause : List Token → List Token → α → Prop}
    {begins : Token → List Token → Bool} {body : Body α}
    {read : Token → (rest : List Token) → Except SourceError (Option (α × Remainder rest))}
    (hclause : ∀ t ts clause rest, takenIfAny (read t ts) = some (some (clause, rest)) →
      Clause (t :: ts) rest clause)
    (hbegins : ∀ t ts found, takenIfAny (read t ts) = some found → found.isSome = begins t ts)
    (h : taken (readClauses finish place read skipping ts) = some (body, rest)) :
    ∃ closing, closing.isMark '}' = true ∧
      ReadsRow place (fitsIn begins) (DerivesPart Clause) skipping ts (closing :: rest) body := by
  -- A clause may take many tokens, so that the induction is on the length.
  induction hsize : ts.length using Nat.strongRecOn generalizing ts skipping body with
  | ind size ih =>
    cases ts with
    | nil => simp at h
    | cons t tail =>
      simp only [List.length_cons] at hsize
      rw [taken_readClauses_cons] at h
      by_cases hclose : t.isMark '}' = true
      · simp only [hclose, if_true] at h
        cases h
        exact ⟨t, hclose, .of_row (by simp [fitsIn, hclose]) .nil⟩
      · simp only [hclose, Bool.false_eq_true, if_false, Option.bind_eq_some_iff] at h
        obtain ⟨found, hfound, h⟩ := h
        have hbegin := hbegins _ _ _ hfound
        cases found with
        | some found =>
          obtain ⟨clause, more⟩ := found
          simp only [Option.bind_eq_some_iff, Prod.exists] at h
          obtain ⟨body', final, hbody, h⟩ := h
          cases h
          have hmore : more.length ≤ tail.length := length_le_of_takenIfAny hfound
          have hdrop := dropSeparator_length_le [';'] more
          obtain ⟨closing, hc, hrow⟩ := ih _ (by omega) hbody rfl
          -- A semicolon behind the clause was dropped; in the row it is a part of its own.
          have hrest : DerivesRow true place (fitsIn begins) (DerivesPart Clause) more
              (closing :: rest) body' := by
            have hrow := hrow.row
            cases more with
            | nil => exact hrow
            | cons s more =>
              rw [dropSeparator_cons] at hrow
              by_cases hs : [';'].any s.isMark = true
              · rw [if_pos hs] at hrow
                exact .part (.semicolon (by simpa using hs)) hrow
              · rw [if_neg hs] at hrow
                exact hrow
          have hfits : fitsIn begins (t :: tail) = true := by simp [fitsIn, ← hbegin]
          exact ⟨closing, hc, .of_row hfits (.part (.clause (hclause _ _ _ _ hfound)) hrest)⟩
        | none =>
          by_cases hs : t.isMark ';' = true
          · simp only [hs, if_true] at h
            obtain ⟨closing, hc, hrow⟩ := ih _ (by omega) h rfl
            have hfits : fitsIn begins (t :: tail) = true := by simp [fitsIn, hs]
            exact ⟨closing, hc, .of_row hfits (.part (.semicolon hs) hrow.row)⟩
          · simp only [hs, Bool.false_eq_true, if_false, Option.bind_eq_some_iff, Prod.exists] at h
            obtain ⟨body', final, hbody, h⟩ := h
            cases h
            obtain ⟨closing, hc, hrow⟩ := ih _ (by omega) hbody rfl
            have hfits : fitsIn begins (t :: tail) = false := by
              simp [fitsIn, hclose, hs, ← hbegin]
            exact ⟨closing, hc, hrow.skip hfits⟩

theorem readEvent_sound {event : EventDecl} {runs : List SkippedRun} {keyword : Token}
    (hword : keyword.isWord "Event")
    (h : takenWithRuns (readEvent finish ts) = some (event, runs, rest)) :
    DerivesEntityPart true (keyword :: ts) rest ⟨[.event event], runs⟩ := by
  simp only [takenWithRuns_readEvent, Option.bind_eq_some_iff, Prod.exists, taken_takeName,
    taken_takeMark] at h
  obtain ⟨name, _, ⟨rfl, hk⟩, opening, start, ⟨rfl, hopen⟩, body, final, hbody, h⟩ := h
  cases h
  obtain ⟨closing, hclose, hrow⟩ := readClauses_sound (fun _ _ _ _ => readEventClause_sound)
    (fun _ _ _ => isSome_of_readEventClause) hbody
  exact .event (.block hword hk hopen hrow.row hclose)

theorem readRule_sound {rule : RuleDecl} {runs : List SkippedRun} {keyword : Token}
    (hword : keyword.isWord "Rule")
    (h : takenWithRuns (readRule finish ts) = some (rule, runs, rest)) :
    DerivesDeclaration true (keyword :: ts) rest ⟨[.rule rule], runs⟩ := by
  simp only [takenWithRuns_readRule, Option.bind_eq_some_iff, Prod.exists, taken_takeName,
    taken_takeMark] at h
  obtain ⟨name, _, ⟨rfl, hk⟩, opening, start, ⟨rfl, hopen⟩, body, final, hbody, h⟩ := h
  cases h
  obtain ⟨closing, hclose, hrow⟩ := readClauses_sound (fun _ _ _ _ => readRuleClause_sound)
    (fun _ _ _ => isSome_of_readRuleClause) hbody
  exact .rule (.block hword hk hopen hrow.row hclose)

theorem length_lt_of_takenWithRuns {a : α} {runs : List SkippedRun}
    {result : Except SourceError (α × List SkippedRun × Rest ts)}
    (h : takenWithRuns result = some (a, runs, rest)) : rest.length < ts.length := by
  unfold takenWithRuns at h
  split at h
  · next b runs' more =>
    cases h
    exact more.2
  · cases h

theorem readEntityBody_sound {name : String} {body : Body EntityClause}
    (h : taken (readEntityBody finish name skipping ts) = some (body, rest)) :
    ∃ closing, closing.isMark '}' = true ∧
      ReadsRow (.entity name) (fitsIn beginsEntityPart) (DerivesEntityPart true) skipping ts
        (closing :: rest) body := by
  induction hsize : ts.length using Nat.strongRecOn generalizing ts skipping body with
  | ind size ih =>
    cases ts with
    | nil => simp at h
    | cons t tail =>
      simp only [List.length_cons] at hsize
      rw [taken_readEntityBody_cons] at h
      by_cases hclose : t.isMark '}' = true
      · simp only [hclose, if_true] at h
        cases h
        exact ⟨t, hclose, .of_row (by simp [fitsIn, hclose]) .nil⟩
      · by_cases hstate : t.isWord "State" = true
        · simp only [hclose, hstate, Bool.false_eq_true, if_false, if_true,
            Option.bind_eq_some_iff, Prod.exists, taken_takeMark] at h
          obtain ⟨opening, start, ⟨rfl, hopen⟩, properties, more, hproperties, body', final,
            hbody, h⟩ := h
          cases h
          have hmore := length_lt_of_taken hproperties
          simp only [List.length_cons] at hsize
          obtain ⟨closing, hc, hrow⟩ := ih _ (by omega) hbody rfl
          have hfits : fitsIn beginsEntityPart (t :: opening :: start) = true := by
            simp [fitsIn, beginsEntityPart, hstate]
          have hpart : DerivesEntityPart true (t :: opening :: start) more
              ⟨[.state properties], []⟩ :=
            .state hstate hopen (readProperties_sound hproperties)
          exact ⟨closing, hc, .of_row hfits (.part hpart hrow.row)⟩
        · by_cases hevent : t.isWord "Event" = true
          · simp only [hclose, hstate, hevent, Bool.false_eq_true, if_false, if_true,
              Option.bind_eq_some_iff, Prod.exists] at h
            obtain ⟨event, runs, more, hread, body', final, hbody, h⟩ := h
            cases h
            have hmore := length_lt_of_takenWithRuns hread
            obtain ⟨closing, hc, hrow⟩ := ih _ (by omega) hbody rfl
            have hfits : fitsIn beginsEntityPart (t :: tail) = true := by
              simp [fitsIn, beginsEntityPart, hevent]
            exact ⟨closing, hc, .of_row hfits (.part (readEvent_sound hevent hread) hrow.row)⟩
          · by_cases hs : t.isMark ';' = true
            · simp only [hclose, hstate, hevent, hs, Bool.false_eq_true, if_false, if_true] at h
              obtain ⟨closing, hc, hrow⟩ := ih _ (by omega) h rfl
              have hfits : fitsIn beginsEntityPart (t :: tail) = true := by simp [fitsIn, hs]
              exact ⟨closing, hc, .of_row hfits (.part (.semicolon hs) hrow.row)⟩
            · simp only [hclose, hstate, hevent, hs, Bool.false_eq_true, if_false,
                Option.bind_eq_some_iff, Prod.exists] at h
              obtain ⟨body', final, hbody, h⟩ := h
              cases h
              obtain ⟨closing, hc, hrow⟩ := ih _ (by omega) hbody rfl
              have hfits : fitsIn beginsEntityPart (t :: tail) = false := by
                simp [fitsIn, beginsEntityPart, hclose, hs, hstate, hevent]
              exact ⟨closing, hc, hrow.skip hfits⟩

theorem readEntity_sound {entity : EntityDecl} {runs : List SkippedRun}
    (h : takenWithRuns (readEntity finish ts) = some (entity, runs, rest)) :
    DerivesDeclaration true ts rest ⟨[.entity entity], runs⟩ := by
  simp only [takenWithRuns_readEntity, Option.bind_eq_some_iff, Prod.exists, taken_takeToken,
    taken_takeName, taken_takeMark] at h
  obtain ⟨keyword, _, ⟨rfl, hword⟩, name, _, ⟨rfl, hk⟩, opening, start, ⟨rfl, hopen⟩, body,
    final, hbody, h⟩ := h
  cases h
  obtain ⟨closing, hclose, hrow⟩ := readEntityBody_sound hbody
  exact .entity (.block hword hk hopen hrow.row hclose)

theorem declarations?_sound {body : Body Declaration}
    (h : declarations? finish skipping ts = some body) :
    ReadsRow .specification fitsInSpecification (DerivesDeclaration true) skipping ts [] body := by
  induction hsize : ts.length using Nat.strongRecOn generalizing ts skipping body with
  | ind size ih =>
    cases ts with
    | nil =>
      rw [declarations?_nil] at h
      cases h
      exact .of_row rfl .nil
    | cons t tail =>
      simp only [List.length_cons] at hsize
      rw [declarations?_cons] at h
      by_cases hentity : t.isWord "Entity" = true
      · simp only [hentity, if_true, Option.bind_eq_some_iff, Prod.exists,
          Option.map_eq_some_iff] at h
        obtain ⟨entity, runs, more, hread, body', hbody, rfl⟩ := h
        have hmore := length_lt_of_takenWithRuns hread
        simp only [List.length_cons] at hmore
        have hrow := (ih _ (by omega) hbody rfl).row
        have hfits : fitsInSpecification (t :: tail) = true := by
          simp [fitsInSpecification, hentity]
        exact .of_row hfits (.part (readEntity_sound hread) hrow)
      · by_cases hrule : t.isWord "Rule" = true
        · simp only [hentity, hrule, Bool.false_eq_true, if_false, if_true,
            Option.bind_eq_some_iff, Prod.exists, Option.map_eq_some_iff] at h
          obtain ⟨rule, runs, more, hread, body', hbody, rfl⟩ := h
          have hmore := length_lt_of_takenWithRuns hread
          have hrow := (ih _ (by omega) hbody rfl).row
          have hfits : fitsInSpecification (t :: tail) = true := by
            simp [fitsInSpecification, hrule]
          exact .of_row hfits (.part (readRule_sound hrule hread) hrow)
        · simp only [hentity, hrule, Bool.false_eq_true, if_false, Option.map_eq_some_iff] at h
          obtain ⟨body', hbody, rfl⟩ := h
          have hfits : fitsInSpecification (t :: tail) = false := by
            simp [fitsInSpecification, hentity, hrule]
          exact (ih _ (by omega) hbody rfl).skip hfits

theorem programOfTokens_eq_ok_iff_declarations? {program : Program} :
    programOfTokens ts = .ok program ↔
      ∃ body, declarations? (endPosition ts) false ts = some body ∧
        program = .ofDeclarations body := by
  unfold programOfTokens declarations?
  cases readDeclarations (endPosition ts) false ts with
  | error => simp [bind, Except.bind, Except.toOption]
  | ok body => simp [bind, Except.bind, Except.toOption, pure, Except.pure, eq_comm]

/-- Every program that is read is derived by the lax grammar. -/
theorem derivesProgram_of_programOfTokens {program : Program}
    (h : programOfTokens ts = .ok program) : DerivesProgram true ts program := by
  obtain ⟨body, hbody, rfl⟩ := programOfTokens_eq_ok_iff_declarations?.mp h
  exact .program (declarations?_sound hbody).row

end StepWorld
