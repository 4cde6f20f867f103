import StepWorld.Proofs.Syntax.DeclarationSoundness
import StepWorld.Proofs.World.Rolls

/-! Clauses that are repeated in an event or a rule. Its conditions count together, and its effects
are applied together, in the order in which they stand in the text, whatever stands between them. -/

namespace StepWorld

/-! ### Conditions -/

section

variable {placeholder : Value} {b : Bindings} {first second : Expr} {rest : List Expr}
  {chance mid last : Chance} {result : Except Fault Bool}

/-- Conditions are evaluated in turn, up to the first that does not hold or meets a fault. -/
inductive HoldInTurn (placeholder : Value) (b : Bindings) :
    List Expr → Chance → Except Fault Bool → Chance → Prop
  | all (chance : Chance) : HoldInTurn placeholder b [] chance (.ok true) chance
  | next {c : Expr} {rest : List Expr} {chance mid last : Chance} {v : Value}
      {result : Except Fault Bool} : (evaluate placeholder b c).run.run chance = (.ok v, mid) →
      v.truth = true → HoldInTurn placeholder b rest mid result last →
      HoldInTurn placeholder b (c :: rest) chance result last
  | unmet {c : Expr} {rest : List Expr} {chance mid : Chance} {v : Value} :
      (evaluate placeholder b c).run.run chance = (.ok v, mid) → v.truth = false →
      HoldInTurn placeholder b (c :: rest) chance (.ok false) mid
  | fault {c : Expr} {rest : List Expr} {chance mid : Chance} {f : Fault} :
      (evaluate placeholder b c).run.run chance = (.error f, mid) →
      HoldInTurn placeholder b (c :: rest) chance (.error f) mid

theorem holdInTurn_nil :
    HoldInTurn placeholder b [] chance result last ↔ result = .ok true ∧ last = chance := by
  constructor
  · intro h
    cases h
    exact ⟨rfl, rfl⟩
  · rintro ⟨rfl, rfl⟩
    exact .all last

theorem holdInTurn_cons : HoldInTurn placeholder b (first :: rest) chance result last ↔
    match (evaluate placeholder b first).run.run chance with
    | (.ok v, mid) =>
      if v.truth then HoldInTurn placeholder b rest mid result last
      else result = .ok false ∧ last = mid
    | (.error f, mid) => result = .error f ∧ last = mid := by
  constructor
  · intro h
    cases h with
    | next hrun htruth hrest => rw [hrun]; exact (if_pos htruth).mpr hrest
    | unmet hrun htruth => simp [hrun, htruth]
    | fault hrun => rw [hrun]; exact ⟨rfl, rfl⟩
  · intro h
    rcases hrun : (evaluate placeholder b first).run.run chance with ⟨_ | v, mid⟩
    · rw [hrun] at h
      obtain ⟨rfl, rfl⟩ := h
      exact .fault hrun
    · rw [hrun] at h
      cases htruth : v.truth with
      | true => exact .next hrun htruth (by simpa [htruth] using h)
      | false =>
        obtain ⟨rfl, rfl⟩ : result = .ok false ∧ last = mid := by simpa [htruth] using h
        exact .unmet hrun htruth

theorem run_conjunction : (evaluate placeholder b (.binary "∧" first second)).run.run chance =
    match (evaluate placeholder b first).run.run chance with
    | (.ok v, mid) =>
      if v.truth then
        match (evaluate placeholder b second).run.run mid with
        | (.ok w, last) => (.ok (.bool w.truth), last)
        | (.error f, last) => (.error f, last)
      else (.ok (.bool false), mid)
    | (.error f, mid) => (.error f, mid) := by
  rw [evaluate, run_bind]
  rcases (evaluate placeholder b first).run.run chance with ⟨_ | v, mid⟩
  · rfl
  · change (if v.truth then _ else _ : Eval Value).run.run mid = if v.truth then _ else _
    split
    · rw [run_bind]
      rcases (evaluate placeholder b second).run.run mid with ⟨_ | w, last⟩ <;> rfl
    · rfl

theorem holdInTurn_conjunction :
    HoldInTurn placeholder b (.binary "∧" first second :: rest) chance result last ↔
      HoldInTurn placeholder b (first :: second :: rest) chance result last := by
  rw [holdInTurn_cons, holdInTurn_cons, run_conjunction]
  rcases (evaluate placeholder b first).run.run chance with ⟨_ | v, mid⟩
  · exact Iff.rfl
  · dsimp only
    cases htruth : v.truth with
    | false => exact Iff.rfl
    | true =>
      simp only [if_true, holdInTurn_cons]
      rcases (evaluate placeholder b second).run.run mid with ⟨_ | w, last⟩ <;> exact Iff.rfl

def StandsFor (condition : Option Expr) (conditions : List Expr) : Prop :=
  ∀ placeholder b chance result last,
    (holds placeholder b condition).run.run chance = (result, last) ↔
      HoldInTurn placeholder b conditions chance result last

theorem standsFor_conjunction? (conditions : List Expr) :
    StandsFor (conjunction? conditions) conditions := by
  intro placeholder b chance result last
  have hpair {x result : Except Fault Bool} {mid last : Chance} :
      (x, mid) = (result, last) ↔ result = x ∧ last = mid := by
    rw [Prod.mk.injEq, eq_comm, eq_comm (a := mid)]
  cases conditions with
  | nil => exact hpair.trans holdInTurn_nil.symm
  | cons first rest =>
    -- Grouped to the left, the first operand grows until all conditions are in it.
    induction rest generalizing first with
    | nil =>
      rw [holdInTurn_cons, conjunction?, List.foldl_nil, holds, run_bind]
      rcases (evaluate placeholder b first).run.run chance with ⟨_ | v, mid⟩
      · exact hpair
      · dsimp only
        rw [holdInTurn_nil]
        cases v.truth <;> exact hpair
    | cons second rest ih => exact (ih (.binary "∧" first second)).trans holdInTurn_conjunction

end

/-! ### Effects -/

section

variable {σ ε : Type} {task : Expr → ExceptT ε (StateM σ) Unit} {effects : List Expr} {s t : σ}
  {result : Except ε Unit}

/-- Effects are applied in turn, up to the first that fails. -/
inductive ApplyInTurn (task : Expr → ExceptT ε (StateM σ) Unit) :
    List Expr → σ → Except ε Unit → σ → Prop
  | all (s : σ) : ApplyInTurn task [] s (.ok ()) s
  | next {effect : Expr} {rest : List Expr} {s mid t : σ} {result : Except ε Unit} :
      (task effect).run.run s = (.ok (), mid) → ApplyInTurn task rest mid result t →
      ApplyInTurn task (effect :: rest) s result t
  | fail {effect : Expr} {rest : List Expr} {s t : σ} {error : ε} :
      (task effect).run.run s = (.error error, t) →
      ApplyInTurn task (effect :: rest) s (.error error) t

def ActsAs (task : Expr → ExceptT ε (StateM σ) Unit) (effect : Option Expr)
    (effects : List Expr) : Prop :=
  ∀ s result t, (effect.elim (pure ()) task).run.run s = (result, t) ↔
    ApplyInTurn task effects s result t

theorem run_forM_iff :
    (forM effects task).run.run s = (result, t) ↔ ApplyInTurn task effects s result t := by
  induction effects generalizing s with
  | nil =>
    constructor
    · intro h
      cases h
      exact .all _
    · intro h
      cases h
      rfl
  | cons effect rest ih =>
    rw [List.forM_cons, run_bind]
    constructor
    · intro h
      rcases hrun : (task effect).run.run s with ⟨error | ⟨⟩, mid⟩
      · rw [hrun] at h
        cases h
        exact .fail hrun
      · rw [hrun] at h
        exact .next hrun (ih.mp h)
    · intro h
      cases h with
      | next hrun hrest => rw [hrun]; exact ih.mpr hrest
      | fail hrun => rw [hrun]

theorem actsAs_sequence? (hsequence : ∀ parts, task (.sequence parts) = forM parts task)
    (effects : List Expr) : ActsAs task (sequence? effects) effects := by
  intro s result t
  rw [← run_forM_iff]
  match effects with
  | [] => exact Iff.rfl
  | [effect] => rw [List.forM_cons, List.forM_nil]; exact Iff.of_eq (by rw [bind_pure_unit]; rfl)
  | first :: second :: rest => rw [← hsequence]; rfl

theorem applyEffect_sequence (scope : Scope) (parts : List Expr) :
    applyEffect scope (.sequence parts) = forM parts (applyEffect scope) := by
  rw [applyEffect]
  induction parts with
  | nil => rfl
  | cons effect rest ih => rw [applyEffects, List.forM_cons, ih]

theorem applyRuleEffect_sequence (parts : List Expr) :
    applyRuleEffect (.sequence parts) = forM parts applyRuleEffect := by
  rw [applyRuleEffect]
  induction parts with
  | nil => rfl
  | cons effect rest ih => rw [applyRuleEffects, List.forM_cons, ih]

end

/-! ### Bodies -/

def EventClause.condition? : EventClause → Option Expr
  | .condition e => some e
  | _ => none

def EventClause.effect? : EventClause → Option Expr
  | .effect e => some e
  | _ => none

def RuleClause.condition? : RuleClause → Option Expr
  | .condition e => some e
  | _ => none

def RuleClause.effect? : RuleClause → Option Expr
  | .effect e => some e
  | _ => none

variable {finish : Position} {tokens : List Token}

theorem DerivesBlock.keyword_eq {α : Type} {lax : Bool} {word name : String}
    {place : String → Surroundings} {begins : Token → List Token → Bool} {body : Body α}
    {Part : List Token → List Token → Body α → Prop} {t keyword : Token} {left : List Token}
    (h : DerivesBlock lax word place begins Part (t :: tokens) left keyword name body) :
    keyword = t := by
  cases h
  rfl

theorem derives_of_readEvent {event : EventDecl} {runs : List SkippedRun} {rest : Rest tokens}
    {keyword : Token} (hword : keyword.isWord "Event" = true)
    (h : readEvent finish tokens = .ok (event, runs, rest)) :
    ∃ name body, event = .ofClauses name body.items ∧
      DerivesBlock true "Event" .event beginsEventClause (DerivesPart (DerivesEventClause true))
        (keyword :: tokens) rest.1 keyword name body := by
  have htaken : takenWithRuns (readEvent finish tokens) = some (event, runs, rest.1) := by
    rw [h]
    rfl
  have hpart : DerivesEntityPart true (keyword :: tokens) rest.1 ⟨[.event event], runs⟩ :=
    readEvent_sound hword htaken
  generalize rest.1 = left at hpart
  generalize he : (⟨[.event event], runs⟩ : Body EntityClause) = part at hpart
  cases hpart with
  | event hblock =>
    cases he
    exact ⟨_, _, rfl, hblock.keyword_eq ▸ hblock⟩
  | _ => cases he

theorem derives_of_readRule {rule : RuleDecl} {runs : List SkippedRun} {rest : Rest tokens}
    {keyword : Token} (hword : keyword.isWord "Rule" = true)
    (h : readRule finish tokens = .ok (rule, runs, rest)) :
    ∃ name body, rule = .ofClauses name body.items ∧
      DerivesBlock true "Rule" .rule beginsRuleClause (DerivesPart (DerivesRuleClause true))
        (keyword :: tokens) rest.1 keyword name body := by
  have htaken : takenWithRuns (readRule finish tokens) = some (rule, runs, rest.1) := by
    rw [h]
    rfl
  have hpart : DerivesDeclaration true (keyword :: tokens) rest.1 ⟨[.rule rule], runs⟩ :=
    readRule_sound hword htaken
  generalize rest.1 = left at hpart
  generalize he : (⟨[.rule rule], runs⟩ : Body Declaration) = part at hpart
  cases hpart with
  | rule hblock =>
    cases he
    exact ⟨_, _, rfl, hblock.keyword_eq ▸ hblock⟩
  | entity => cases he

/-- An event or a rule that was read is a row of clauses. Its condition comes to what the conditions
among them come to in turn, up to the first that does not hold, with the same draws. Its effect
leaves behind what the effects among them leave in turn, up to the first that fails. What stands
between them does not matter. -/
theorem repeated_clauses_fold {keyword : Token} :
    (∀ event runs rest, keyword.isWord "Event" = true →
      readEvent finish tokens = .ok (event, runs, rest) →
        ∃ body, DerivesBlock true "Event" .event beginsEventClause
            (DerivesPart (DerivesEventClause true)) (keyword :: tokens) rest.1 keyword event.name
            body ∧
          StandsFor event.condition (body.items.filterMap EventClause.condition?) ∧
          ∀ scope, ActsAs (applyEffect scope) event.effect
            (body.items.filterMap EventClause.effect?)) ∧
    (∀ rule runs rest, keyword.isWord "Rule" = true →
      readRule finish tokens = .ok (rule, runs, rest) →
        ∃ body, DerivesBlock true "Rule" .rule beginsRuleClause
            (DerivesPart (DerivesRuleClause true)) (keyword :: tokens) rest.1 keyword rule.name
            body ∧
          StandsFor rule.condition (body.items.filterMap RuleClause.condition?) ∧
          ActsAs applyRuleEffect rule.effect (body.items.filterMap RuleClause.effect?)) := by
  constructor
  · intro event runs rest hword hread
    obtain ⟨name, body, rfl, hblock⟩ := derives_of_readEvent hword hread
    exact ⟨body, hblock, standsFor_conjunction? _,
      fun scope => actsAs_sequence? (applyEffect_sequence scope) _⟩
  · intro rule runs rest hword hread
    obtain ⟨name, body, rfl, hblock⟩ := derives_of_readRule hword hread
    exact ⟨body, hblock, standsFor_conjunction? _, actsAs_sequence? applyRuleEffect_sequence _⟩

/-- An event and a rule whose repeated clauses stand among others. -/
@[irreducible]
def mixedEvent : List Token :=
  (tokenize ("Event brew \x7b effect: Self.heat += 1 requires: Self.lit target: Pot " ++
    "requires: Rand(1, 6) > 2 P[Self.heat += 5] = 0.5 effect: Target.water -= 1 \x7d"))
    |>.toOption.getD []

@[irreducible]
def mixedRule : List Token :=
  (tokenize ("Rule boil \x7b when: time > 1 always(lit) effect: hot -> GameOver " ++
    "when: Rand(1, 6) > 2 effect: done -> LevelComplete \x7d"))
    |>.toOption.getD []

theorem reads_mixed : (readEvent .start mixedEvent.tail).toBool = true ∧
    (readRule .start mixedRule.tail).toBool = true := by
  decide +kernel

theorem repeated_clauses_fold_mixed :
    (∃ event, ∃ body : List EventClause,
      (∃ runs rest, readEvent .start mixedEvent.tail = .ok (event, runs, rest)) ∧
      StandsFor event.condition (body.filterMap EventClause.condition?) ∧
      ∀ scope, ActsAs (applyEffect scope) event.effect (body.filterMap EventClause.effect?)) ∧
    (∃ rule, ∃ body : List RuleClause,
      (∃ runs rest, readRule .start mixedRule.tail = .ok (rule, runs, rest)) ∧
      StandsFor rule.condition (body.filterMap RuleClause.condition?) ∧
      ActsAs applyRuleEffect rule.effect (body.filterMap RuleClause.effect?)) := by
  have hsome {α : Type} {result : Except SourceError α} (h : result.toBool = true) :
      ∃ a, result = .ok a := by
    cases result with
    | ok a => exact ⟨a, rfl⟩
    | error => cases h
  obtain ⟨⟨event, runs, rest⟩, hevent⟩ := hsome reads_mixed.1
  obtain ⟨⟨rule, runs', rest'⟩, hrule⟩ := hsome reads_mixed.2
  have hword : (⟨.identifier, "Event", .start⟩ : Token).isWord "Event" = true := by decide
  have hword' : (⟨.identifier, "Rule", .start⟩ : Token).isWord "Rule" = true := by decide
  obtain ⟨body, -, hcondition, heffect⟩ := repeated_clauses_fold.1 event runs rest hword hevent
  obtain ⟨body', -, hcondition', heffect'⟩ := repeated_clauses_fold.2 rule runs' rest' hword' hrule
  exact ⟨⟨event, body.items, ⟨runs, rest, hevent⟩, hcondition, heffect⟩,
    ⟨rule, body'.items, ⟨runs', rest', hrule⟩, hcondition', heffect'⟩⟩

end StepWorld
