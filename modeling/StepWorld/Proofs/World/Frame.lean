import StepWorld.Proofs.Tables
import StepWorld.Proofs.World.Effects

/-! What a step leaves as it is while its events and rules run. Worlds are neither added nor
removed, the environment stays, and ids are only ever given out. -/

namespace StepWorld

def hexValue (text : List Char) : Nat :=
  text.foldl (fun n c => 16 * n + if c.isDigit then c.toNat - 48 else c.toNat - 87) 0

theorem hexValue_append_digit (text : List Char) {d : Nat} (h : d < 16) :
    hexValue (text ++ [d.digitChar]) = 16 * hexValue text + d := by
  have hd : ∀ d < 16, (if (Nat.digitChar d).isDigit then (Nat.digitChar d).toNat - 48
      else (Nat.digitChar d).toNat - 87) = d := by decide
  simp only [hexValue, List.foldl_append, List.foldl_cons, List.foldl_nil, hd d h]

theorem hexValue_toDigits (n : Nat) : hexValue (Nat.toDigits 16 n) = n := by
  induction n using Nat.strongRecOn with
  | ind n ih =>
    by_cases h : n < 16
    · rw [Nat.toDigits_of_lt_base h]
      simpa [hexValue] using hexValue_append_digit [] h
    · rw [Nat.toDigits_of_base_le (by decide) (by omega),
        hexValue_append_digit _ (Nat.mod_lt _ (by decide)), ih _ (by omega)]
      omega

theorem hexValue_zeros (count : Nat) (text : List Char) :
    hexValue (List.replicate count '0' ++ text) = hexValue text := by
  have hzeros : hexValue (List.replicate count '0') = 0 := by
    induction count with
    | zero => rfl
    | succ count ih =>
      have h := hexValue_append_digit (List.replicate count '0') (show 0 < 16 by decide)
      rw [ih] at h
      rw [List.replicate_succ']
      exact h
  unfold hexValue at hzeros ⊢
  rw [List.foldl_append, hzeros]

theorem exists_digit_of_mem_toDigits {n : Nat} {c : Char} (h : c ∈ Nat.toDigits 16 n) :
    ∃ d < 16, c = Nat.digitChar d := by
  induction n using Nat.strongRecOn with
  | ind n ih =>
    by_cases hn : n < 16
    · rw [Nat.toDigits_of_lt_base hn, List.mem_singleton] at h
      exact ⟨n, hn, h⟩
    · rw [Nat.toDigits_of_base_le (by decide) (by omega), List.mem_append,
        List.mem_singleton] at h
      rcases h with h | h
      · exact ih _ (by omega) h
      · exact ⟨n % 16, Nat.mod_lt _ (by decide), h⟩

theorem exists_digit_of_mem_hexText {width n : Nat} {c : Char} (h : c ∈ hexText width n) :
    ∃ d < 16, c = Nat.digitChar d := by
  rcases List.mem_append.mp h with h | h
  · exact ⟨0, by decide, List.eq_of_mem_replicate h⟩
  · exact exists_digit_of_mem_toDigits h

theorem numberedId_injective {name : String} {m n : Nat}
    (h : numberedId name m = numberedId name n) : m = n := by
  have htext : hexText 12 m = hexText 12 n := by
    unfold numberedId at h
    have hlist := congrArg String.toList h
    simpa [String.toList_append] using hlist
  have hvalue := congrArg hexValue htext
  simpa only [hexText, hexValue_zeros, hexValue_toDigits] using hvalue
namespace Ambient

/-- The same surroundings at a later time. -/
structure Advances (a b : Ambient) : Prop where
  issued : a.issued ≤ b.issued
  environment : b.environment = a.environment

instance : Std.Refl Advances := ⟨fun _ => ⟨Nat.le_refl _, rfl⟩⟩

instance : Trans Advances Advances Advances :=
  ⟨fun h h' => ⟨Nat.le_trans h.issued h'.issued, h'.environment.trans h.environment⟩⟩

variable (a : Ambient)

theorem advances_print (kind : LineKind) (message : String) : Advances a (a.print kind message) :=
  ⟨Nat.le_refl _, rfl⟩

theorem advances_debug (kind : LineKind) (message : Unit → String) :
    Advances a (a.debug kind message) := by
  unfold debug
  split
  · exact a.advances_print _ _
  · exact Std.Refl.refl a

theorem advances_issue (name : String) : Advances a (a.issue name).2 := ⟨Nat.le_succ _, rfl⟩

theorem advances_tick : Advances a a.tick.2 := ⟨Nat.le_refl _, rfl⟩

end Ambient

namespace Stage

def Advances (s t : Stage) : Prop := s.ambient.Advances t.ambient

instance : Std.Refl Stage.Advances := ⟨fun s => Std.Refl.refl s.ambient⟩

instance : Trans Stage.Advances Stage.Advances Stage.Advances :=
  ⟨fun {a b c} (h : a.ambient.Advances b.ambient) (h' : b.ambient.Advances c.ambient) =>
    (Trans.trans h h' : a.ambient.Advances c.ambient)⟩

theorem advances_setProperty (s : Stage) (h : Handle) (property : String) (value : Value) :
    Stage.Advances s (s.setProperty h property value) := by
  unfold setProperty
  split <;> exact Std.Refl.refl s.ambient

theorem allows_advances : Allows Stage.Advances where
  drawn _ _ := ⟨Nat.le_refl _, rfl⟩
  shown s kind message := s.ambient.advances_debug kind message
  remarked s _ := Std.Refl.refl s.ambient
  assigned s h property value _ := s.advances_setProperty h property value
  created s type _ _ _ := s.ambient.advances_issue type
  removed s _ _ _ := Std.Refl.refl s.ambient

end Stage

structure Arena.Advances (a b : Arena) : Prop where
  ambient : a.ambient.Advances b.ambient
  blueprints : ∀ id, (b.realms.get? id).map (·.blueprint) = (a.realms.get? id).map (·.blueprint)

namespace Arena

instance : Std.Refl Arena.Advances := ⟨fun a => ⟨Std.Refl.refl a.ambient, fun _ => rfl⟩⟩

theorem Advances.trans {a b c : Arena} (h : Arena.Advances a b) (h' : Arena.Advances b c) :
    Arena.Advances a c :=
  ⟨Trans.trans h.ambient h'.ambient, fun id => (h'.blueprints id).trans (h.blueprints id)⟩

theorem Advances.realms {a b : Arena} (h : Arena.Advances a b) (id : String) :
    (b.realms.get? id).isSome = (a.realms.get? id).isSome := by
  rw [← Option.isSome_map, h.blueprints, Option.isSome_map]

instance : Trans Arena.Advances Arena.Advances Arena.Advances := ⟨Advances.trans⟩

variable (a : Arena)

theorem blueprints_modify (id : String) (f : Realm → World) (other : String) :
    ((a.realms.modify id fun r => { r with world := f r }).get? other).map (·.blueprint) =
      (a.realms.get? other).map (·.blueprint) := by
  rw [Table.get?_modify]
  split
  · rw [Option.map_map]
    rfl
  · rfl

theorem advances_keep (id : String) (world : World) : Arena.Advances a (a.keep id world) :=
  ⟨Std.Refl.refl a.ambient, a.blueprints_modify id _⟩

theorem advances_update (id : String) (f : World → World) : Arena.Advances a (a.update id f) :=
  ⟨a.ambient.advances_tick, a.blueprints_modify id _⟩

theorem advances_settle (id : String) {s : Stage} (stamped : List Change → Bool)
    (h : a.ambient.Advances s.ambient) : Arena.Advances a (a.settle id s stamped) := by
  have hambient : Arena.Advances a { a with ambient := s.ambient } := ⟨h, fun _ => rfl⟩
  unfold settle
  dsimp only
  split
  · exact hambient.trans (advances_update _ _ _)
  · exact hambient.trans (advances_keep _ _ _)

end Arena

theorem advances_callApply (c : Call) (id : String) (scope : Scope) :
    Moves Arena.Advances (c.apply id scope) := by
  intro a
  have h := Stage.allows_advances.callAct c scope (c.begun a)
  rw [c.run_apply]
  split
  all_goals
    next s hs =>
      rw [hs] at h
      exact a.advances_settle _ _ h

theorem advances_runEval {α : Type} (x : Eval α) : Moves Arena.Advances (Run.eval x) :=
  fun _ => ⟨⟨Nat.le_refl _, rfl⟩, fun _ => rfl⟩

theorem advances_runEvent (programs : Programs) (r : Request) :
    Moves Arena.Advances (runEvent programs r) := by
  unfold runEvent
  refine .of_bind .of_get fun a => ?_
  split
  · exact .of_pure _
  · refine .of_bind .of_get fun a => .of_bind (advances_runEval _) fun met => ?_
    split
    · exact advances_callApply _ _ _
    · exact .of_pure _

theorem advances_ruleApply (rule : RuleDecl) (realm : Realm) (id : String) (vars : Record) :
    Moves Arena.Advances (rule.apply realm id vars) := by
  intro a
  have hchance (chance : Chance) :
      Arena.Advances a { a with ambient := { a.ambient with chance } } :=
    ⟨⟨Nat.le_refl _, rfl⟩, fun _ => rfl⟩
  have hrestamp (chance : Chance) (world : World) :
      Arena.Advances a ({ a with ambient := { a.ambient with chance } }.restamp id world) :=
    (hchance chance).trans (Arena.advances_update _ _ _)
  unfold RuleDecl.apply
  simp only [ExceptT.run, ExceptT.mk, StateT.run]
  split
  · exact hrestamp _ _
  · split
    · exact hrestamp _ _
    · exact (hchance _).trans (Arena.advances_keep _ _ _)

theorem advances_runRule (programs : Programs) (r : Request) :
    Moves Arena.Advances (runRule programs r) := by
  unfold runRule
  refine .of_bind .of_get fun a => ?_
  split
  · exact .of_pure _
  · refine .of_bind (advances_runEval _) fun met => ?_
    split
    · exact advances_ruleApply _ _ _ _
    · exact .of_pure _

namespace StepTarget

variable (t : StepTarget)

theorem advances_program (p : Program) : Moves (StepProgress.Along Arena.Advances) (t.program p) :=
  t.moves_program (fun _ _ _ => advances_runEvent _ _) (fun _ => advances_runRule _ _) p

end StepTarget

def StepProgress.total (p : StepProgress) : Statistics :=
  { p.statistics with stateChanges := p.statistics.stateChanges + p.changes }

namespace Engine

variable (e : Engine) (s : Simulation)

def stepped (id : String) (arena : Arena) (f : Simulation → Simulation) : Engine :=
  { e with begun := e.begun ++ [id], arena }.alter id f

theorem alter_same (id : String) : (e.alter id fun s => s) = e := by
  simp only [alter, Table.modify_same]

theorem stepped_same (id : String) :
    e.stepped id e.arena (fun s => s) = { e with begun := e.begun ++ [id] } :=
  alter_same { e with begun := e.begun ++ [id] } id

theorem announce_lines (summary : StepSummary) :
    ∃ lines, e.announce s summary =
      { e with arena := { e.arena with ambient := { e.arena.ambient with lines } } } := by
  unfold announce
  dsimp only
  split
  · exact ⟨_, rfl⟩
  · exact ⟨e.arena.ambient.lines, rfl⟩

variable {e s}

theorem step_of_no_program (h : e.programs s.specification = none) :
    e.step s =
      (.error (.specificationNotFound s.specification), { e with begun := e.begun ++ [s.id] }) := by
  have hbegun : { e with begun := e.begun ++ [s.id] }.programs s.specification = none := h
  simp only [step, hbegun]

theorem step_of_no_world {program : Program} (hp : e.programs s.specification = some program)
    (hw : e.arena.world? s.id = none) :
    e.step s = (.error (.worldGone s.id), { e with begun := e.begun ++ [s.id] }) := by
  have hbegun : { e with begun := e.begun ++ [s.id] }.programs s.specification = some program := hp
  simp only [step, hbegun, hw]

def runOf (s : Simulation) (program : Program) (world : World) : Except Fault Unit × StepProgress :=
  StateT.run (ExceptT.run (StepTarget.program ⟨e.programs, s.specification, s.id⟩ program))
    ⟨e.arena.keep s.id world.advance, [], [], 0, [], s.statistics⟩

theorem step_of_fault {program : Program} {world : World} {f : Fault} {p : StepProgress}
    (hp : e.programs s.specification = some program) (hw : e.arena.world? s.id = some world)
    (hrun : e.runOf s program world = (.error f, p)) :
    e.step s =
      (.error (.fault f),
        e.stepped s.id p.arena fun t => { t with statistics := p.statistics }) := by
  have hbegun : { e with begun := e.begun ++ [s.id] }.programs s.specification = some program := hp
  change ExceptT.run (StepTarget.program ⟨{ e with begun := e.begun ++ [s.id] }.programs,
    s.specification, s.id⟩ program) _ = _ at hrun
  simp only [step, hbegun, hw, hrun]
  rfl

theorem step_of_run {program : Program} {world : World} {p : StepProgress}
    (hp : e.programs s.specification = some program) (hw : e.arena.world? s.id = some world)
    (hrun : e.runOf s program world = (.ok (), p)) :
    let counted := { e with begun := e.begun ++ [s.id] }.finishStep s (world.time + 1) p
    e.step s =
      if counted.2.arena.ambient.environment.verbose && !isWritable counted.1.time then
        (.error (.fault .longInteger), counted.2)
      else (.ok counted.1, counted.2.announce s counted.1) := by
  have hbegun : { e with begun := e.begun ++ [s.id] }.programs s.specification = some program := hp
  change ExceptT.run (StepTarget.program ⟨{ e with begun := e.begun ++ [s.id] }.programs,
    s.specification, s.id⟩ program) _ = _ at hrun
  simp only [step, hbegun, hw, hrun]

def ranArena (e : Engine) (s : Simulation) (p : StepProgress) : Arena :=
  p.arena.update s.id
    (·.finishStep (s.currentStep + 1) e.settings.historyLimit p.events p.rules)

theorem world?_ranArena {e : Engine} {s : Simulation} {p : StepProgress} {w : World}
    (h : p.arena.world? s.id = some w) : (e.ranArena s p).world? s.id =
      some ((w.finishStep (s.currentStep + 1) e.settings.historyLimit p.events p.rules).touch
        p.arena.ambient.tick.1) := by
  unfold Arena.world? at h
  simp only [ranArena, Arena.update, Arena.world?, Table.get?_modify, if_true, Option.map_map]
  obtain ⟨realm, hrealm, rfl⟩ := Option.map_eq_some_iff.mp h
  rw [hrealm]
  rfl

def ranSummary (e : Engine) (s : Simulation) (time : Int) (p : StepProgress) : StepSummary where
  step := s.currentStep + 1
  time
  events := p.events
  rules := p.rules
  changes := p.changes
  errors := p.errors
  terminal := ((e.ranArena s p).world? s.id).any (·.terminal)

theorem step_ran {program : Program} {world : World} {p : StepProgress}
    (hp : e.programs s.specification = some program) (hw : e.arena.world? s.id = some world)
    (hrun : e.runOf s program world = (.ok (), p)) : ∃ lines,
    (e.step s).1 = (if e.arena.ambient.environment.verbose && !isWritable (world.time + 1) then
      .error (.fault .longInteger) else .ok (e.ranSummary s (world.time + 1) p)) ∧
    (e.step s).2 = e.stepped s.id
      { e.ranArena s p with ambient := { (e.ranArena s p).ambient with lines } }
      fun t => { t with currentStep := s.currentStep + 1, statistics := p.total } := by
  have hmoves := StepTarget.advances_program ⟨e.programs, s.specification, s.id⟩ program
    ⟨e.arena.keep s.id world.advance, [], [], 0, [], s.statistics⟩
  change e.arena.keep s.id world.advance |>.Advances (e.runOf s program world).2.arena at hmoves
  rw [hrun] at hmoves
  have henvironment : (e.ranArena s p).ambient.environment = e.arena.ambient.environment :=
    hmoves.ambient.environment
  rw [step_of_run hp hw hrun]
  change ∃ lines, (if (e.ranArena s p).ambient.environment.verbose &&
    !isWritable (world.time + 1) then _ else _ : Except StepError StepSummary × Engine).1 = _ ∧
    (if (e.ranArena s p).ambient.environment.verbose &&
      !isWritable (world.time + 1) then _ else _ : Except StepError StepSummary × Engine).2 = _
  rw [henvironment]
  split
  · exact ⟨(e.ranArena s p).ambient.lines, rfl, rfl⟩
  · obtain ⟨lines, hlines⟩ := announce_lines
      ({ e with begun := e.begun ++ [s.id] }.finishStep s (world.time + 1) p).2 s
      ({ e with begun := e.begun ++ [s.id] }.finishStep s (world.time + 1) p).1
    rw [hlines]
    exact ⟨lines, rfl, rfl⟩

/-- What a step comes to. Its program or its world may be missing, and its program may fail. Else it
is counted; even then it breaks off if its time cannot be shown. -/
inductive StepOutcome (e : Engine) (s : Simulation) : Except StepError StepSummary × Engine → Prop
  | unknown (hp : e.programs s.specification = none) :
    StepOutcome e s
      (.error (.specificationNotFound s.specification), e.stepped s.id e.arena fun t => t)
  | gone {p : Program} (hp : e.programs s.specification = some p)
      (hw : e.arena.world? s.id = none) :
    StepOutcome e s (.error (.worldGone s.id), e.stepped s.id e.arena fun t => t)
  | failed {p : Program} {w : World} {fault : Fault} {q : StepProgress}
      (hp : e.programs s.specification = some p) (hw : e.arena.world? s.id = some w)
      (hrun : e.runOf s p w = (.error fault, q)) :
    StepOutcome e s
      (.error (.fault fault), e.stepped s.id q.arena fun t => { t with statistics := q.statistics })
  | counted {p : Program} {w : World} {q : StepProgress} {lines : List String}
      (hp : e.programs s.specification = some p) (hw : e.arena.world? s.id = some w)
      (hrun : e.runOf s p w = (.ok (), q)) :
    StepOutcome e s
      (if e.arena.ambient.environment.verbose && !isWritable (w.time + 1) then
        .error (.fault .longInteger) else .ok (e.ranSummary s (w.time + 1) q),
      e.stepped s.id { e.ranArena s q with ambient := { (e.ranArena s q).ambient with lines } }
        fun t => { t with currentStep := s.currentStep + 1, statistics := q.total })

theorem step_outcome (e : Engine) (s : Simulation) : e.StepOutcome s (e.step s) := by
  cases hp : e.programs s.specification with
  | none =>
    rw [step_of_no_program hp, ← stepped_same]
    exact .unknown hp
  | some p =>
    cases hw : e.arena.world? s.id with
    | none =>
      rw [step_of_no_world hp hw, ← stepped_same]
      exact .gone hp hw
    | some w =>
      rcases hrun : e.runOf s p w with ⟨fault | _, q⟩
      · rw [step_of_fault hp hw hrun]
        exact .failed hp hw hrun
      · obtain ⟨lines, hresult, hstate⟩ := step_ran hp hw hrun
        have hstep : e.step s = (_, _) := Prod.ext hresult hstate
        rw [hstep]
        exact .counted hp hw hrun

theorem runner?_own {id : String} (hs : e.simulations.get? id = some s) :
    e.runner? id = some s := by
  rw [runner?, hs]
  rfl

theorem runner?_alter (e : Engine) (id : String) (u : Simulation → Simulation) (k : String) :
    (e.alter id u).runner? k = if k = id then (e.runner? k).map u else e.runner? k := by
  rw [runner?, runner?, alter, Table.get?_modify, Table.get?_modify]
  split
  · cases e.simulations.get? k <;> rfl
  · rfl

theorem runner?_stepped (e : Engine) (id : String) (arena : Arena) (u : Simulation → Simulation)
    (k : String) : (e.stepped id arena u).runner? k =
      if k = id then (e.runner? k).map u else e.runner? k :=
  runner?_alter { e with begun := e.begun ++ [id], arena } id u k

theorem step_eq_ok {σ : StepSummary} (h : (e.step s).1 = .ok σ) :
    ∃ p w q lines, e.programs s.specification = some p ∧ e.arena.world? s.id = some w ∧
      e.runOf s p w = (.ok (), q) ∧ σ = e.ranSummary s (w.time + 1) q ∧
      (e.step s).2 = e.stepped s.id
        { e.ranArena s q with ambient := { (e.ranArena s q).ambient with lines } }
        fun t => { t with currentStep := s.currentStep + 1, statistics := q.total } := by
  have houtcome := e.step_outcome s
  generalize e.step s = result at h houtcome ⊢
  cases houtcome with
  | unknown hp => cases h
  | gone hp hw => cases h
  | failed hp hw hrun => cases h
  | counted hp hw hrun =>
    dsimp only at h
    split at h
    · cases h
    · cases h
      exact ⟨_, _, _, _, hp, hw, hrun, rfl, rfl⟩

variable (e s)

/-- A step leaves all but the arena and the simulation alone. Either it breaks off and is not
counted, or it is counted; even then it breaks off if its time cannot be shown. -/
theorem step_cases :
    (∃ error arena f, e.step s = (.error error, e.stepped s.id arena f) ∧
      e.arena.Advances arena ∧ ∀ t, ∃ statistics, f t = { t with statistics }) ∨
    ∃ summary arena statistics, (e.step s).2 = e.stepped s.id arena
        (fun t => { t with currentStep := s.currentStep + 1, statistics }) ∧
      e.arena.Advances arena ∧ summary.step = s.currentStep + 1 ∧
      summary.terminal = (arena.world? s.id).any (·.terminal) ∧
      ((e.step s).1 = .ok summary ∨ (e.step s).1 = .error (.fault .longInteger) ∧
        e.arena.ambient.environment.verbose = true ∧
          ∃ world, e.arena.world? s.id = some world ∧ isWritable (world.time + 1) = false) := by
  have hadvances {p : Program} {w : World} {result : Except Fault Unit} {q : StepProgress}
      (hrun : e.runOf s p w = (result, q)) : e.arena.Advances q.arena := by
    have hmoves := StepTarget.advances_program ⟨e.programs, s.specification, s.id⟩ p
      ⟨e.arena.keep s.id w.advance, [], [], 0, [], s.statistics⟩
    change e.arena.keep s.id w.advance |>.Advances (e.runOf s p w).2.arena at hmoves
    rw [hrun] at hmoves
    exact (e.arena.advances_keep s.id w.advance).trans hmoves
  have houtcome := e.step_outcome s
  generalize e.step s = result at houtcome ⊢
  cases houtcome with
  | unknown hp => exact .inl ⟨_, _, _, rfl, Std.Refl.refl _, fun t => ⟨t.statistics, rfl⟩⟩
  | gone hp hw => exact .inl ⟨_, _, _, rfl, Std.Refl.refl _, fun t => ⟨t.statistics, rfl⟩⟩
  | failed hp hw hrun => exact .inl ⟨_, _, _, rfl, hadvances hrun, fun t => ⟨_, rfl⟩⟩
  | @counted p w q lines hp hw hrun =>
    have hran := (hadvances hrun).trans (q.arena.advances_update s.id
      (·.finishStep (s.currentStep + 1) e.settings.historyLimit q.events q.rules))
    refine .inr ⟨e.ranSummary s (w.time + 1) q, _, _, rfl, hran.trans ?_, rfl, rfl, ?_⟩
    · exact ⟨⟨Nat.le_refl _, rfl⟩, fun _ => rfl⟩
    · dsimp only
      split
      · next hv =>
        simp only [Bool.and_eq_true, Bool.not_eq_true'] at hv
        exact .inr ⟨rfl, hv.1, w, hw, hv.2⟩
      · exact .inl rfl

/-- A step changes of its simulation only how far it has come. -/
theorem step_alters : ∃ arena f, (e.step s).2 = e.stepped s.id arena f ∧ e.arena.Advances arena ∧
    ∀ t, ∃ currentStep statistics, f t = { t with currentStep, statistics } := by
  rcases e.step_cases s with ⟨error, arena, f, h, ha, hf⟩ | ⟨σ, arena, st, h, ha, -⟩
  · refine ⟨arena, f, congrArg Prod.snd h, ha, fun t => ?_⟩
    obtain ⟨statistics, hft⟩ := hf t
    exact ⟨t.currentStep, statistics, hft⟩
  · exact ⟨arena, _, h, ha, fun t => ⟨_, _, rfl⟩⟩

theorem step_stepped : ∃ arena f, (e.step s).2 = e.stepped s.id arena f ∧ e.arena.Advances arena ∧
    ∀ t, (f t).status = t.status ∧ (f t).completedAt = t.completedAt ∧ (f t).error = t.error := by
  obtain ⟨arena, f, h, ha, hf⟩ := e.step_alters s
  refine ⟨arena, f, h, ha, fun t => ?_⟩
  obtain ⟨_, _, hft⟩ := hf t
  rw [hft]
  exact ⟨rfl, rfl, rfl⟩

end Engine

end StepWorld
