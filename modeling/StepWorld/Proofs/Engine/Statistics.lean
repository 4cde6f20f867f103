import Mathlib.Algebra.Order.Field.Rat
import Mathlib.Algebra.Order.Field.Basic
import StepWorld.Proofs.Engine.HistoryWindow

/-! The statistics of a simulation add up. They are the totals of the summaries of its steps,
whatever happens in between, and the result of a completed simulation carries them. -/

namespace StepWorld

/-! ### What a step counts -/

/-- Some events and `n` rules were tried. What ran of them stands in the lists of the step and in
the statistics. -/
structure StepProgress.Tallies (n : Nat) (a b : StepProgress) : Prop where
  events : b.statistics.eventsExecuted + a.events.length =
    a.statistics.eventsExecuted + b.events.length
  rules : b.statistics.rulesExecuted + a.rules.length =
    a.statistics.rulesExecuted + b.rules.length
  changes : b.statistics.stateChanges = a.statistics.stateChanges
  declared : b.statistics.rulesAttempted = a.statistics.rulesAttempted + n
  eventsTried : a.statistics.eventsAttempted + b.events.length ≤
    b.statistics.eventsAttempted + a.events.length
  rulesTried : b.rules.length ≤ a.rules.length + n

namespace StepProgress.Tallies

variable {m n : Nat} {a b c : StepProgress}

theorem refl (a : StepProgress) : Tallies 0 a a :=
  ⟨rfl, rfl, rfl, rfl, Nat.le_refl _, Nat.le_refl _⟩

theorem trans (h : Tallies m a b) (h' : Tallies n b c) : Tallies (m + n) a c := by
  obtain ⟨hevents, hrules, hchanges, hdeclared, htried, hran⟩ := h
  obtain ⟨hevents', hrules', hchanges', hdeclared', htried', hran'⟩ := h'
  constructor <;> omega

instance : Std.Refl (Tallies 0) := ⟨refl⟩

instance : Trans (Tallies 0) (Tallies 0) (Tallies 0) := ⟨trans⟩

theorem arena (p : StepProgress) (arena : Arena) : Tallies 0 p { p with arena } :=
  ⟨rfl, rfl, rfl, rfl, Nat.le_refl _, Nat.le_refl _⟩

theorem countEvent (p : StepProgress) (label : String) (o : Outcome) :
    Tallies 0 p (p.countEvent label o) := by
  unfold StepProgress.countEvent addOutcome
  dsimp only
  split <;> constructor <;> simp +arith

theorem countRule (p : StepProgress) (name : String) (o : Outcome) :
    Tallies 1 p (p.countRule name o) := by
  unfold StepProgress.countRule addOutcome
  dsimp only
  split <;> constructor <;> simp +arith

end StepProgress.Tallies

namespace StepTarget

variable (t : StepTarget) {p q : StepProgress}

theorem tallies_event (type id event : String) :
    Moves (StepProgress.Tallies 0) (t.event type id event) := by
  have hrun : Moves (StepProgress.Tallies 0)
      (Stepping.run (runEvent t.programs (t.eventRequest type id event))) :=
    fun p => .arena p _
  exact .of_bind hrun fun o => .of_modify fun p => .countEvent p _ o

theorem tallies_rules {rules : List RuleDecl}
    (h : (ExceptT.run (t.rules rules)).run p = (.ok (), q)) : p.Tallies rules.length q := by
  induction rules generalizing p with
  | nil =>
    cases h
    exact .refl _
  | cons rule rest ih =>
    obtain ⟨o, r, hr, h⟩ := run_bind_eq_ok.mp h
    obtain ⟨arena, -, rfl⟩ := Stepping.run_eq_ok hr
    have hrest := ih h
    have hfirst := (StepProgress.Tallies.arena p arena).trans (.countRule _ rule.name o)
    rw [List.length_cons, Nat.add_comm]
    exact (Nat.zero_add 1 ▸ hfirst).trans hrest

theorem tallies_program {program : Program}
    (h : (ExceptT.run (t.program program)).run p = (.ok (), q)) :
    p.Tallies program.rules.length q := by
  obtain ⟨⟨⟩, r, hentities, hrules⟩ := run_bind_eq_ok.mp h
  have hevents := (t.composes_moves t.tallies_event).entities program.entities p
  rw [hentities] at hevents
  exact Nat.zero_add program.rules.length ▸ hevents.trans (t.tallies_rules hrules)

end StepTarget

/-! ### Totals -/

namespace Statistics

def attempted (s : Statistics) : Nat := s.eventsAttempted + s.rulesAttempted

def executed (s : Statistics) : Nat := s.eventsExecuted + s.rulesExecuted

/-- The share of attempts that ran, as an exact fraction. -/
def share (s : Statistics) : ℚ := s.executed / s.attempted

end Statistics

/-- A step that was taken: its summary, and how many rules the program declared then. -/
structure Posting where
  summary : StepSummary
  declared : Nat

/-- Statistics are the totals of some steps. -/
structure Statistics.Totals (past : List Posting) (s : Statistics) : Prop where
  events : s.eventsExecuted = (past.map fun x => x.summary.events.length).sum
  rules : s.rulesExecuted = (past.map fun x => x.summary.rules.length).sum
  changes : s.stateChanges = (past.map fun x => x.summary.changes).sum
  declared : s.rulesAttempted = (past.map fun x => x.declared).sum
  eventsTried : s.eventsExecuted ≤ s.eventsAttempted
  rulesTried : s.rulesExecuted ≤ s.rulesAttempted

namespace Statistics.Totals

variable {past : List Posting} {s : Statistics}

theorem nil : Statistics.none.Totals [] := ⟨rfl, rfl, rfl, rfl, Nat.le_refl _, Nat.le_refl _⟩

theorem concat (h : s.Totals past) {n : Nat} {arena : Arena} {q : StepProgress}
    (hq : StepProgress.Tallies n ⟨arena, [], [], 0, [], s⟩ q) {σ : StepSummary}
    (hevents : σ.events = q.events) (hrules : σ.rules = q.rules)
    (hchanges : σ.changes = q.changes) : q.total.Totals (past ++ [⟨σ, n⟩]) := by
  have hran : q.statistics.eventsExecuted = s.eventsExecuted + q.events.length := hq.events
  have hran' : q.statistics.rulesExecuted = s.rulesExecuted + q.rules.length := hq.rules
  have hsame : q.statistics.stateChanges = s.stateChanges := hq.changes
  have hdeclared : q.statistics.rulesAttempted = s.rulesAttempted + n := hq.declared
  have htried : s.eventsAttempted + q.events.length ≤ q.statistics.eventsAttempted := hq.eventsTried
  have htried' : q.rules.length ≤ n := Nat.zero_add n ▸ hq.rulesTried
  have hle := h.eventsTried
  have hle' := h.rulesTried
  constructor <;> simp only [StepProgress.total, List.map_append, List.map_singleton,
    List.sum_append, List.sum_singleton, hevents, hrules, hchanges, ← h.events, ← h.rules,
    ← h.changes, ← h.declared]
  all_goals omega

theorem share_mem (h : s.Totals past) : 0 ≤ s.share ∧ s.share ≤ 1 := by
  have hle : s.executed ≤ s.attempted := Nat.add_le_add h.eventsTried h.rulesTried
  constructor
  · exact div_nonneg (Nat.cast_nonneg _) (Nat.cast_nonneg _)
  · exact div_le_one_of_le₀ (Nat.cast_le.mpr hle) (Nat.cast_nonneg _)

end Statistics.Totals

/-- The metrics of a result are the totals of some steps. The success rate is the float nearest to
an exact share. -/
structure SimulationResult.Tells (past : List Posting) (r : SimulationResult) : Prop where
  steps : r.metrics.totalSteps = past.length
  totals : r.simulation.statistics.Totals past
  events : r.metrics.eventsExecuted = r.simulation.statistics.eventsExecuted
  rules : r.metrics.rulesExecuted = r.simulation.statistics.rulesExecuted
  rate : r.metrics.successRate = if r.simulation.statistics.attempted = 0 then 0 else
    nearest false r.simulation.statistics.executed r.simulation.statistics.attempted
  share : 0 ≤ r.simulation.statistics.share ∧ r.simulation.statistics.share ≤ 1
  nothing : r.simulation.statistics.attempted = 0 → r.simulation.statistics.share = 0

theorem SimulationResult.Tells.of_toldBy {past : List Posting} {s : Simulation}
    {r : SimulationResult} (h : s.ToldBy r) (hstep : s.currentStep = past.length)
    (htotals : s.statistics.Totals past) : r.Tells past := by
  obtain ⟨hsteps, hstatistics, world, hr⟩ := h
  rw [← hstatistics] at htotals
  refine ⟨?_, htotals, ?_, ?_, ?_, htotals.share_mem, fun hnothing => ?_⟩
  · rw [hr]
    exact hsteps.trans hstep
  · rw [hr]
    rfl
  · rw [hr]
    rfl
  · rw [hr]
    rfl
  · rw [Statistics.share, hnothing, Nat.cast_zero, div_zero]

namespace Engine

variable {e f g : Engine} {s : Simulation} {id : String} {past : List Posting}

theorem totals_step {p : Program} {σ : StepSummary} (hp : e.programs s.specification = some p)
    (hstep : (e.step s).1 = .ok σ) (hs : s.statistics.Totals past) : ∃ arena statistics,
      (e.step s).2 = e.stepped s.id arena
        (fun t => { t with currentStep := s.currentStep + 1, statistics }) ∧
      statistics.Totals (past ++ [⟨σ, p.rules.length⟩]) := by
  obtain ⟨p', w, q, lines, hp', -, hrun, rfl, hstate⟩ := step_eq_ok hstep
  obtain rfl := Option.some.inj (hp'.symm.trans hp)
  exact ⟨_, _, hstate, hs.concat (StepTarget.tallies_program _ hrun) rfl rfl rfl⟩

/-! ### Ledgers -/

/-- A simulation takes no step meanwhile. What is newly told of it is how it stood. -/
structure Lingers (id : String) (e f : Engine) : Prop where
  runner : ∀ t, f.runner? id = some t → ∃ s, e.runner? id = some s ∧ t.id = s.id ∧
    t.currentStep = s.currentStep ∧ t.statistics = s.statistics
  results : ∀ r, f.results.get? id = some r →
    e.results.get? id = some r ∨ ∃ s, e.runner? id = some s ∧ s.ToldBy r

/-- The steps that a simulation takes, by hand or in a turn of its loop, and what each of them comes
to. In between anything else may happen. -/
inductive Ledger (id : String) (e : Engine) : List (Except StepError Posting) → Engine → Prop
  | begin : Ledger id e [] e
  | linger {steps : List (Except StepError Posting)} {f g : Engine} (h : Ledger id e steps f)
      (hg : f.Lingers id g) : Ledger id e steps g
  | returned {steps : List (Except StepError Posting)} {f : Engine} {s : Simulation} {p : Program}
      {σ : StepSummary} (h : Ledger id e steps f) (hs : f.runner? id = some s)
      (hp : f.programs s.specification = some p) (hstep : (f.step s).1 = .ok σ) :
    Ledger id e (steps ++ [.ok ⟨σ, p.rules.length⟩]) (f.step s).2
  | failed {steps : List (Except StepError Posting)} {f : Engine} {s : Simulation}
      {error : StepError} (h : Ledger id e steps f) (hs : f.runner? id = some s)
      (hstep : (f.step s).1 = .error error) : Ledger id e (steps ++ [.error error]) (f.step s).2

structure Booked (id : String) (past : List Posting) (e : Engine) : Prop where
  runner : ∀ s, e.runner? id = some s →
    s.id = id ∧ s.currentStep = past.length ∧ s.statistics.Totals past
  results : ∀ r, e.results.get? id = some r → ∃ k ≤ past.length, r.Tells (past.take k)

namespace Booked

theorem tells (h : e.Booked id past) (hs : e.runner? id = some s) {r : SimulationResult}
    (hr : s.ToldBy r) : r.Tells past := by
  obtain ⟨-, hstep, htotals⟩ := h.runner s hs
  exact .of_toldBy hr hstep htotals

theorem lingers (h : e.Booked id past) (hf : e.Lingers id f) : f.Booked id past where
  runner t ht := by
    obtain ⟨s, hs, hid, hstep, hstatistics⟩ := hf.runner t ht
    obtain ⟨hid', hstep', htotals⟩ := h.runner s hs
    exact ⟨hid.trans hid', hstep.trans hstep', hstatistics ▸ htotals⟩
  results r hr := by
    rcases hf.results r hr with hr | ⟨s, hs, htold⟩
    · exact h.results r hr
    · exact ⟨past.length, Nat.le_refl _, by rw [List.take_length]; exact h.tells hs htold⟩

theorem returned (h : e.Booked id past) {p : Program} {σ : StepSummary}
    (hs : e.runner? id = some s) (hp : e.programs s.specification = some p)
    (hstep : (e.step s).1 = .ok σ) :
    (e.step s).2.Booked id (past ++ [⟨σ, p.rules.length⟩]) := by
  obtain ⟨rfl, hcount, htotals⟩ := h.runner s hs
  obtain ⟨arena, statistics, hstate, htotals⟩ := totals_step hp hstep htotals
  rw [hstate]
  refine ⟨fun t ht => ?_, fun r hr => ?_⟩
  · rw [runner?_stepped, if_pos rfl, hs] at ht
    cases ht
    exact ⟨rfl, by simp [hcount], htotals⟩
  · obtain ⟨k, hk, htells⟩ := h.results r hr
    refine ⟨k, Nat.le_trans hk (by simp), ?_⟩
    rwa [List.take_append_of_le_length hk]

end Booked

theorem Ledger.booked (he : e.Booked id []) {steps : List (Except StepError Posting)}
    (h : Ledger id e steps f) : ∀ past, steps = past.map .ok → f.Booked id past := by
  induction h with
  | begin =>
    intro past hpast
    obtain rfl := List.map_eq_nil_iff.mp hpast.symm
    exact he
  | linger _ hg ih => exact fun past hpast => (ih past hpast).lingers hg
  | returned _ hs hp hstep ih =>
    intro past hpast
    obtain ⟨before, last, rfl, hbefore, hlast⟩ := List.map_eq_append_iff.mp hpast.symm
    obtain ⟨posting, rfl, hposting⟩ := List.map_eq_singleton_iff.mp hlast
    cases hposting
    exact (ih before hbefore.symm).returned hs hp hstep
  | failed _ _ _ ih =>
    intro past hpast
    obtain ⟨before, last, rfl, -, hlast⟩ := List.map_eq_append_iff.mp hpast.symm
    obtain ⟨posting, -, hposting⟩ := List.map_eq_singleton_iff.mp hlast
    cases hposting

/-! ### Whatever is done is a ledger -/

namespace Lingers

theorem of_kept (hrunner : ∀ t, f.runner? id = some t → e.runner? id = some t)
    (hresults : ∀ r, f.results.get? id = some r → e.results.get? id = some r) :
    e.Lingers id f :=
  ⟨fun t ht => ⟨t, hrunner t ht, rfl, rfl, rfl⟩, fun r hr => .inl (hresults r hr)⟩

theorem of_same (hsimulations : f.simulations = e.simulations) (hdetached : f.detached = e.detached)
    (hresults : f.results = e.results) : e.Lingers id f :=
  of_kept (fun t ht => by rwa [runner?, hsimulations, hdetached] at ht)
    fun r hr => hresults ▸ hr

theorem aside {P : String → String → Prop} (h : Aside P e f) : e.Lingers id f where
  runner t ht := by
    obtain ⟨s, hs, hgoes⟩ := h.runner ht
    exact ⟨s, hs, hgoes.id, hgoes.step, hgoes.statistics⟩
  results := h.results id

theorem install (e : Engine) (k : String) (spec : Specification) :
    e.Lingers id (e.install k spec) := of_same rfl rfl rfl

theorem add (hname : ∃ n ≤ e.arena.ambient.issued, id = numberedId "sim" n)
    (specification : String) (program : Program) (o : SimulationOptions) :
    e.Lingers id (e.addSimulation specification program o).2 :=
  have hnew := ne_addSimulation hname specification program o
  of_kept (fun t ht => by rwa [runner?_addSimulation hnew] at ht) fun _ hr => hr

theorem forget (h : e.Registered) (k : String) : e.Lingers id (e.forget k) :=
  of_kept (fun _ ht => h.runner_forget ht) fun _ hr => (Table.get?_of_remove hr).2

theorem clear (h : e.Registered) : e.Lingers id e.clear :=
  of_kept (fun _ ht => h.runner_clear ht) fun _ hr => by cases hr

theorem step (h : e.Registered) {k : String} (hs : e.runner? k = some s) (hk : id ≠ k) :
    e.Lingers id (e.step s).2 := by
  obtain ⟨rfl, -⟩ := h.runner hs
  obtain ⟨arena, u, hstep, -, -⟩ := e.step_alters s
  rw [hstep]
  exact of_kept (fun t ht => by rwa [runner?_stepped, if_neg hk] at ht) fun _ hr => hr

end Lingers

namespace Ledger

variable {steps : List (Except StepError Posting)}

theorem step (h : Ledger id e steps f) (hf : f.Registered) {k : String}
    (hs : f.runner? k = some s) : ∃ steps, Ledger id e steps (f.step s).2 := by
  by_cases hk : id = k
  · subst hk
    cases hstep : (f.step s).1 with
    | error error => exact ⟨_, h.failed hs hstep⟩
    | ok σ =>
      obtain ⟨p, -, -, -, hp, -⟩ := step_eq_ok hstep
      exact ⟨_, h.returned hs hp hstep⟩
  · exact ⟨_, h.linger (.step hf hs hk)⟩

theorem stirs (h : Ledger id e steps f) (hf : f.Registered)
    (hname : ∃ n ≤ f.arena.ambient.issued, id = numberedId "sim" n) (hg : Stirs f g) :
    ∃ steps, Ledger id e steps g := by
  cases hg with
  | aside ha | refused ha => exact ⟨_, h.linger (.aside ha)⟩
  | step hs => exact h.step hf hs
  | broken hs _ ha =>
    obtain ⟨_, h⟩ := h.step hf hs
    exact ⟨_, h.linger (.aside ha)⟩
  | drop | write => exact ⟨_, h.linger (.of_same rfl rfl rfl)⟩
  | add hp o => exact ⟨_, h.linger (.add hname _ _ o)⟩
  | forget k => exact ⟨_, h.linger (.forget hf k)⟩

theorem stirred (h : Ledger id e steps f) (hf : f.Registered)
    (hname : ∃ n ≤ f.arena.ambient.issued, id = numberedId "sim" n) (hg : Stirred f g) :
    ∃ steps, Ledger id e steps g := by
  induction hg with
  | refl => exact ⟨_, h⟩
  | tail hfirst hlast ih =>
    obtain ⟨_, h⟩ := ih
    obtain ⟨n, hn, hid⟩ := hname
    exact h.stirs (hf.stirred hfirst)
      ⟨n, Nat.le_trans hn (persists_stirred hfirst).ambient.issued, hid⟩ hlast

theorem deals (h : Ledger id e steps f) (hf : f.Registered)
    (hname : ∃ n ≤ f.arena.ambient.issued, id = numberedId "sim" n) {d : Deed} (hg : Deals f d g) :
    ∃ steps, Ledger id e steps g := by
  cases hg with
  | stirred hg => exact h.stirred hf hname hg
  | registered ha _ _ _ hb =>
    exact ⟨_, ((h.linger (.aside ha)).linger (.install _ _ _)).linger (.aside hb)⟩
  | cleared => exact ⟨_, h.linger (.clear hf)⟩
  | renamed | rewritten | withdrawn | event | rule | disturbed =>
    exact ⟨_, h.linger (.of_same rfl rfl rfl)⟩

theorem afterAll (h : Ledger id e steps f) (hf : f.Registered)
    (hname : ∃ n ≤ f.arena.ambient.issued, id = numberedId "sim" n) (deeds : List Deed) :
    ∃ steps, Ledger id e steps (f.afterAll deeds) := by
  induction deeds generalizing f steps with
  | nil => exact ⟨_, h⟩
  | cons d rest ih =>
    have hdeals := deals_after f d
    obtain ⟨_, h⟩ := h.deals hf hname hdeals
    obtain ⟨n, hn, hid⟩ := hname
    exact ih h (hf.deals hdeals) ⟨n, Nat.le_trans hn hdeals.persists.ambient.issued, hid⟩

end Ledger

/-! ### From the creation to the completion -/

def KeepsResults (e f : Engine) : Prop := f.results = e.results

instance : Std.Refl KeepsResults := ⟨fun _ => rfl⟩

instance : Trans KeepsResults KeepsResults KeepsResults := ⟨fun h h' => Eq.trans h' h⟩

theorem keepsResults_store (task : Archive.Task Unit) : Moves KeepsResults (store task) := by
  intro e
  change (e.call (store task)).2.results = e.results
  rcases @call_store e task with ⟨archive, h, -⟩ | ⟨error, archive, h⟩ <;> rw [h]

theorem keepsResults_create (specification : String) (o : SimulationOptions) :
    Moves KeepsResults (createSimulation specification o) := by
  refine .of_bind .of_get fun e => ?_
  split
  · exact .of_throw _
  · refine .of_bind (.of_modifyGet fun e => rfl) fun s => ?_
    exact .of_bind (keepsResults_store _) fun _ =>
      .of_bind (.of_modify fun e => rfl) fun _ => .of_pure _

theorem results_archived (e : Engine) (first second : Archive.Task Unit) (message : String) :
    (e.call (do
      store first
      store second
      modify fun f => f.print .success message)).2.results = e.results :=
  have hkept : Moves KeepsResults (do
      store first
      store second
      modify fun f => f.print .success message) :=
    .of_bind (keepsResults_store first) fun _ => .of_bind (keepsResults_store second) fun _ =>
      .of_modify fun _ => rfl
  hkept e

theorem result_complete (hs : e.runner? id = some s) : ∃ r,
    (e.call (complete id)).2.results.get? id = some r ∧ s.ToldBy r := by
  have hrunner : (e.noteEnd id .completed).2.runner? id = some (s.completed e.tick.1) := by
    change ((({ e.tick.2 with statuses := e.statuses ++ [(id, .completed)] } : Engine).alter id
      _).alter id _).runner? id = _
    rw [runner?_alter, if_pos rfl, runner?_alter, if_pos rfl]
    exact congrArg (Option.map _) (congrArg (Option.map _) hs)
  refine ⟨(s.completed e.tick.1).result ((e.arena.world? id).getD (.empty e.tick.1)), ?_,
    rfl, rfl, _, rfl⟩
  rw [call_complete hrunner, results_archived]
  exact Table.get?_put_self _ _ _

/-- A simulation that has taken no step, with nothing in its statistics and no result. -/
structure Untried (id : String) (e : Engine) : Prop where
  own : ∃ s, e.simulations.get? id = some s ∧ s.currentStep = 0 ∧ s.statistics = .none
  result : e.results.get? id = none

theorem Untried.booked (h : e.Untried id) (hr : e.Registered) : e.Booked id [] := by
  obtain ⟨s, hs, hstep, hstatistics⟩ := h.own
  refine ⟨fun t ht => ?_, fun r hresult => ?_⟩
  · rw [runner?, hs] at ht
    cases ht
    exact ⟨(hr.filed id s hs).1, hstep, hstatistics ▸ .nil⟩
  · cases h.result.symm.trans hresult

theorem Registered.untried_create (h : e.Registered) {specification : String} {spec : Specification}
    (hspec : e.specifications.get? specification = some spec) (o : SimulationOptions) :
    (e.after (.life (.create specification o))).Untried
      (e.addSimulation specification spec.program o).1.id := by
  obtain ⟨s, hs, hgoes⟩ := exists_created hspec o
  refine ⟨⟨s, hs, hgoes.step, hgoes.statistics⟩, Option.eq_none_iff_forall_ne_some.mpr ?_⟩
  intro r hr
  have hkept : (e.after (.life (.create specification o))).results = e.results :=
    (congrArg Engine.results (after_create e specification o)).trans
      (keepsResults_create specification o e)
  rw [hkept] at hr
  exact ne_addSimulation (h.results _ r hr) specification spec.program o rfl

/-- Statistics add up. A simulation that was just created has none. Whatever is done afterwards, it
takes steps, and all else leaves its statistics alone. If all of its steps return, the statistics
are the totals of their summaries and of the rules that were declared at each of them, and no more
ran than was tried. A completion stores a result with just these totals, and every result that is
stored has the totals of the steps up to some completion. -/
theorem statistics_add_up (h : e.Reachable) :
    (∀ specification o, (e.specifications.get? specification).isSome →
      ∃ id, e.simulations.get? id = none ∧ (e.after (.life (.create specification o))).Untried id) ∧
    ∀ id, e.Untried id →
      (∀ deeds, ∃ steps, Ledger id e steps (e.afterAll deeds)) ∧
      ∀ (past : List Posting) f, Ledger id e (past.map .ok) f →
        (∀ s, f.runner? id = some s → s.currentStep = past.length ∧ s.statistics.Totals past ∧
          ∃ r, (f.call (complete id)).2.results.get? id = some r ∧ r.Tells past) ∧
        ∀ r, f.results.get? id = some r → ∃ k ≤ past.length, r.Tells (past.take k) := by
  have hr := h.registered
  refine ⟨fun specification o hspec => ?_, fun id huntried => ⟨fun deeds => ?_,
    fun past f hledger => ?_⟩⟩
  · obtain ⟨spec, hspec⟩ := Option.isSome_iff_exists.mp hspec
    exact ⟨_, (hr.fresh (Nat.lt_succ_self _)).1, hr.untried_create hspec o⟩
  · obtain ⟨s, hs, -⟩ := huntried.own
    exact Ledger.begin.afterAll hr (hr.filed id s hs).2 deeds
  · have hbooked := hledger.booked (huntried.booked hr) past rfl
    refine ⟨fun s hs => ?_, hbooked.results⟩
    obtain ⟨-, hstep, htotals⟩ := hbooked.runner s hs
    obtain ⟨r, hresult, htold⟩ := result_complete hs
    exact ⟨hstep, htotals, r, hresult, hbooked.tells hs htold⟩

theorem Ledger.next {n : Nat} (h : Ledger id e (past.map .ok) f)
    (hreturn : (f.simulations.get? id).any (fun s => (f.step s).1.isOk &&
      (f.programs s.specification).any (·.rules.length = n)) = true) :
    ∃ σ, Ledger id e ((past ++ [(⟨σ, n⟩ : Posting)]).map .ok) (f.after (.step id)) := by
  obtain ⟨s, hs, hreturn⟩ := (Option.any_eq_true _ _).mp hreturn
  obtain ⟨hok, hrules⟩ := Bool.and_eq_true_iff.mp hreturn
  obtain ⟨p, hp, hlength⟩ := (Option.any_eq_true _ _).mp hrules
  obtain rfl := of_decide_eq_true hlength
  cases hstep : (f.step s).1 with
  | error error => simp [hstep, Except.isOk, Except.toBool] at hok
  | ok σ =>
    refine ⟨σ, ?_⟩
    rw [after_step hs, List.map_append]
    exact h.returned (runner?_own hs) hp hstep

theorem Lingers.revise (e : Engine) (k : String) (source name description : Option String) :
    e.Lingers id (e.after (.revise k source name description)) := by
  cases hspec : e.specifications.get? k with
  | none =>
    simp only [after, Engine.revise, hspec]
    exact .of_same rfl rfl rfl
  | some spec =>
    cases source with
    | none =>
      simp only [after, Engine.revise, hspec]
      exact .of_same rfl rfl rfl
    | some source =>
      cases hsource : registrable source <;> simp only [after, Engine.revise, hspec, hsource] <;>
        exact .of_same rfl rfl rfl

def tills : String :=
  "Entity Till { State { n: int }
      Event sell { effect: Self.n += 1 }
      Event pay { requires: Self.n > 5 } }"

/-- Tills that have no events any more, and are closed. -/
def closedTills : String :=
  "Entity Till { State { n: int } }
    Rule Close { effect: GameOver }"

@[irreducible] def audited : Engine :=
  (create Settings.default [] (.cyclic [0] 0) (.memory ⟨[], [], []⟩) fun _ _ => []).afterAll
    [.register tills none none,
      .life (.create "spec_000000000001" ⟨none, none, none, none, none⟩)]

def auditedOnce : Engine :=
  (audited.after (.step "sim_000000000002")).after
    (.revise "spec_000000000001" (some closedTills) none none)

def auditedTwice : Engine := auditedOnce.after (.step "sim_000000000002")

theorem runs_audited :
    (audited.simulations.get? "sim_000000000002").map (fun s => (s.currentStep, s.statistics)) =
      some (0, .none) ∧
    (audited.results.get? "sim_000000000002").isNone = true ∧
    (audited.simulations.get? "sim_000000000002").any (fun s => (audited.step s).1.isOk &&
      (audited.programs s.specification).any (·.rules.length = 0)) = true ∧
    (auditedOnce.simulations.get? "sim_000000000002").any (fun s => (auditedOnce.step s).1.isOk &&
      (auditedOnce.programs s.specification).any (·.rules.length = 1)) = true ∧
    (auditedTwice.simulations.get? "sim_000000000002").map (·.statistics) =
      some ⟨1, 1, 1, 4, 1⟩ := by decide +kernel

/-- Two steps, with a rule at the second. The result has one event and one rule. -/
theorem statistics_add_up_tills : ∃ (past : List Posting) (r : SimulationResult),
    audited.Reachable ∧ audited.Untried "sim_000000000002" ∧
    Ledger "sim_000000000002" audited (past.map .ok) auditedTwice ∧
    past.map (·.declared) = [0, 1] ∧
    (auditedTwice.call (complete "sim_000000000002")).2.results.get? "sim_000000000002" = some r ∧
    r.metrics.totalSteps = 2 ∧ r.metrics.eventsExecuted = 1 ∧ r.metrics.rulesExecuted = 1 ∧
    r.simulation.statistics.rulesAttempted = 1 ∧
    0 ≤ r.simulation.statistics.share ∧ r.simulation.statistics.share ≤ 1 := by
  have hreachable : audited.Reachable := by
    unfold audited
    exact ⟨_, _, _, _, _, _, rfl⟩
  obtain ⟨hown, hnone, hone, htwo, hlast⟩ := runs_audited
  obtain ⟨s, hs, hfresh⟩ := Option.map_eq_some_iff.mp hown
  obtain ⟨hzero, hempty⟩ := Prod.mk.inj hfresh
  have huntried : audited.Untried "sim_000000000002" :=
    ⟨⟨s, hs, hzero, hempty⟩, Option.isNone_iff_eq_none.mp hnone⟩
  have hbegin : Ledger "sim_000000000002" audited (([] : List Posting).map .ok) audited := .begin
  obtain ⟨σ, hfirst⟩ := hbegin.next hone
  obtain ⟨τ, hsecond⟩ := (hfirst.linger (.revise _ _ _ _ _)).next htwo
  obtain ⟨t, ht, hstatistics⟩ := Option.map_eq_some_iff.mp hlast
  have hruns : auditedTwice.runner? "sim_000000000002" = some t := runner?_own ht
  obtain ⟨-, htotals, r, hresult, htells⟩ :=
    (((statistics_add_up hreachable).2 _ huntried).2 _ _ hsecond).1 t hruns
  rw [hstatistics] at htotals
  refine ⟨_, r, hreachable, huntried, hsecond, rfl, hresult, htells.steps, ?_, ?_, ?_,
    htells.share⟩
  · exact htells.events.trans (htells.totals.events.trans htotals.events.symm)
  · exact htells.rules.trans (htells.totals.rules.trans htotals.rules.symm)
  · exact htells.totals.declared.trans htotals.declared.symm

end Engine

end StepWorld
