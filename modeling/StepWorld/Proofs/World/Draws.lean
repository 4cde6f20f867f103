import StepWorld.Proofs.World.Blind
import StepWorld.Proofs.World.Rolls
import StepWorld.Proofs.World.Rules

/-! How many draws an event takes. Where nothing in it draws by itself, each roll takes one draw,
and the effects do what they would do if only those that fire were there. -/

namespace StepWorld

def EventDecl.Drawless (event : EventDecl) : Prop := ∀ node ∈ event.nodes, node.isRand = false

instance (event : EventDecl) : Decidable event.Drawless :=
  inferInstanceAs (Decidable (∀ node ∈ event.nodes, node.isRand = false))

namespace EventDecl.Drawless

variable {event : EventDecl} {e : Expr}

theorem of_nodes (h : event.Drawless) (he : e.asNodes ⊆ event.nodes) : e.Drawless :=
  fun _ hpart => h _ (he (Expr.mem_asNodes hpart))

theorem condition (h : event.Drawless) (he : event.condition = some e) : e.Drawless :=
  h.of_nodes (nodes_of_condition he)

theorem effect (h : event.Drawless) (he : event.effect = some e) : e.Drawless :=
  h.of_nodes (nodes_of_effect he)

theorem weighted (h : event.Drawless) {w : WeightedEffect} (hw : w ∈ event.weighted) :
    w.effect.Drawless := h.of_nodes (nodes_of_weighted hw)

end EventDecl.Drawless

/-- The weighted effects whose draw falls below their weight, in order. -/
def fired (chance : Chance) : List WeightedEffect → List Expr
  | [] => []
  | w :: rest =>
    if w.firesOn chance.draw.1 then w.effect :: fired chance.draw.2 rest
    else fired chance.draw.2 rest

/-! ### With and without draws -/

structure Ambient.Parted (first second : Chance) (a b : Ambient) : Prop where
  first : a.chance = first
  second : b.chance = second
  rest : ∃ chance lines, b = { a with chance, lines }

theorem Ambient.blind_parted {first second : Chance} : Ambient.Blind (Parted first second) where
  environment := by
    rintro a _ ⟨-, -, chance, lines, rfl⟩
    rfl
  shown := by
    rintro a b ⟨ha, hb, chance, lines, hsame⟩ kind message
    refine ⟨(a.chance_debug _ _).trans ha, (b.chance_debug _ _).trans hb, chance, ?_⟩
    subst hsame
    have hdebugs : debugs { a with chance, lines } = a.debugs := rfl
    unfold debug
    rw [hdebugs]
    split <;> exact ⟨_, rfl⟩
  issued := by
    rintro a _ ⟨ha, hb, chance, lines, rfl⟩ type
    exact ⟨rfl, ha, hb, chance, lines, rfl⟩

namespace Stage

def Parted (first second : Chance) : Stage → Stage → Prop := Beside (Ambient.Parted first second)

variable {first second : Chance} {s t : Stage}

theorem Parted.self (s : Stage) : Parted s.ambient.chance s.ambient.chance s s :=
  ⟨s.ambient, ⟨rfl, rfl, _, _, rfl⟩, rfl⟩

theorem Parted.chance (h : Parted first second s t) : s.ambient.chance = first := by
  obtain ⟨ambient, ha, rfl⟩ := h
  exact ha.first

theorem Parted.report (h : Parted first second s t) :
    t.changes = s.changes ∧ t.warnings = s.warnings := by
  obtain ⟨ambient, -, rfl⟩ := h
  exact ⟨rfl, rfl⟩

theorem agrees_applyEffect_parted {effect : Expr} (h : effect.Drawless) (scope : Scope) :
    Agrees (Parted first second) (applyEffect scope effect) (applyEffect scope effect) := by
  refine ((blind_beside Ambient.blind_parted).composes scope).applyEffect fun part hpart => ?_
  refine agreeable_beside Ambient.blind_parted fun b => ?_
  obtain ⟨result, hresult⟩ := certain_evaluate defaultPlaceholder b part
    fun node hnode => h node (effect.nodes_subset hpart hnode)
  intro s t hst
  unfold AgreesAt
  rw [Act.run_eval_certain hresult, Act.run_eval_certain hresult]
  exact ⟨rfl, hst⟩

theorem Parted.roll (h : Parted first second s t) (label : String) (w : WeightedEffect) :
    Parted first.draw.2 second (s.roll label w) t := by
  obtain ⟨_, ⟨rfl, hsecond, chance, lines, rfl⟩, rfl⟩ := h
  obtain ⟨chance', lines', hroll⟩ := s.roll_eq label w
  refine ⟨_, ⟨s.chance_roll label w, hsecond, chance, lines, ?_⟩, ?_⟩
  · rw [hroll]
  · rw [hroll]

end Stage

open Stage

section

variable {scope : Scope} {label : String} {weighted : List WeightedEffect} {first second : Chance}
  {s t u : Stage}

theorem fired_of_applyWeighted (h : ∀ w ∈ weighted, w.effect.Drawless)
    (hst : Parted first second s t)
    (hrun : (applyWeighted scope label weighted).run.run s = (.ok (), u)) :
    ∃ v, (applyEffects scope (fired first weighted)).run.run t = (.ok (), v) ∧
      Parted (first.after weighted.length) second u v := by
  induction weighted generalizing first s t with
  | nil =>
    cases hrun
    exact ⟨t, rfl, hst⟩
  | cons w rest ih =>
    obtain ⟨hw, hrest⟩ := List.forall_mem_cons.mp h
    have hroll := hst.roll label w
    rw [run_applyWeighted_cons, hst.chance] at hrun
    unfold fired
    by_cases hfires : w.firesOn first.draw.1
    · rw [if_pos hfires] at hrun ⊢
      obtain ⟨_, r, heffect, hrun⟩ := run_bind_eq_ok.mp hrun
      obtain ⟨r', heffect', hr⟩ := (agrees_applyEffect_parted hw scope _ _ hroll).of_run heffect
      obtain ⟨v, hv, huv⟩ := ih hrest hr hrun
      exact ⟨v, run_bind_eq_ok.mpr ⟨(), r', heffect', hv⟩, huv⟩
    · rw [if_neg hfires] at hrun ⊢
      exact ih hrest hroll hrun

theorem fired_of_applyWeighted_fails {halt : Halt} (h : ∀ w ∈ weighted, w.effect.Drawless)
    (hst : Parted first second s t)
    (hrun : (applyWeighted scope label weighted).run.run s = (.error halt, u)) :
    ∃ before w after r v, weighted = before ++ w :: after ∧
      (applyEffects scope (fired first before)).run.run t = (.ok (), r) ∧
      w.firesOn (first.drawn before.length) ∧
      (applyEffect scope w.effect).run.run r = (.error halt, v) ∧
      Parted (first.after (before.length + 1)) second u v := by
  induction weighted generalizing first s t with
  | nil => cases hrun
  | cons w rest ih =>
    obtain ⟨hw, hrest⟩ := List.forall_mem_cons.mp h
    have hroll := hst.roll label w
    rw [run_applyWeighted_cons, hst.chance] at hrun
    by_cases hfires : w.firesOn first.draw.1
    · rw [if_pos hfires] at hrun
      rcases run_bind_eq_error.mp hrun with heffect | ⟨_, r, heffect, hrun⟩
      · obtain ⟨v, hv, huv⟩ := (agrees_applyEffect_parted hw scope _ _ hroll).of_run heffect
        exact ⟨[], w, rest, t, v, rfl, rfl, hfires, hv, huv⟩
      · obtain ⟨r', heffect', hr⟩ := (agrees_applyEffect_parted hw scope _ _ hroll).of_run heffect
        obtain ⟨before, w', after, q, v, rfl, hbefore, hfires', hv, huv⟩ := ih hrest hr hrun
        refine ⟨w :: before, w', after, q, v, rfl, ?_, hfires', hv, huv⟩
        unfold fired
        rw [if_pos hfires]
        exact run_bind_eq_ok.mpr ⟨(), r', heffect', hbefore⟩
    · rw [if_neg hfires] at hrun
      obtain ⟨before, w', after, q, v, rfl, hbefore, hfires', hv, huv⟩ := ih hrest hroll hrun
      refine ⟨w :: before, w', after, q, v, rfl, ?_, hfires', hv, huv⟩
      unfold fired
      rw [if_neg hfires]
      exact hbefore

theorem agrees_ofEffect {effect : Option Expr} (h : ∀ e, effect = some e → e.Drawless) :
    Agrees (Parted first second) (applyEffects scope effect.toList)
      (applyEffects scope effect.toList) := by
  cases effect with
  | none => exact .of_pure _
  | some e =>
    rw [Option.toList_some, applyEffects_singleton]
    exact agrees_applyEffect_parted (h e rfl) scope

variable {c : Call}

theorem fired_of_act (heffect : ∀ e, c.event.effect = some e → e.Drawless)
    (hweighted : ∀ w ∈ c.event.weighted, w.effect.Drawless) (hst : Parted first second s t)
    (hrun : (c.act scope).run.run s = (.ok (), u)) :
    ∃ v, (applyEffects scope (c.event.effect.toList ++ fired first c.event.weighted)).run.run t =
      (.ok (), v) ∧ Parted (first.after c.event.weighted.length) second u v := by
  rw [Call.act_eq] at hrun
  obtain ⟨_, r, hfirst, hrest⟩ := run_bind_eq_ok.mp hrun
  obtain ⟨r', hfirst', hr⟩ := (agrees_ofEffect heffect _ _ hst).of_run hfirst
  obtain ⟨v, hv, huv⟩ := fired_of_applyWeighted hweighted hr hrest
  rw [applyEffects_append]
  exact ⟨v, run_bind_eq_ok.mpr ⟨(), r', hfirst', hv⟩, huv⟩

theorem fired_of_act_fails {halt : Halt} (heffect : ∀ e, c.event.effect = some e → e.Drawless)
    (hweighted : ∀ w ∈ c.event.weighted, w.effect.Drawless) (hst : Parted first second s t)
    (hrun : (c.act scope).run.run s = (.error halt, u)) :
    (∃ effect v, c.event.effect = some effect ∧
      (applyEffect scope effect).run.run t = (.error halt, v) ∧ Parted first second u v) ∨
    ∃ before w after r v, c.event.weighted = before ++ w :: after ∧
      (applyEffects scope (c.event.effect.toList ++ fired first before)).run.run t = (.ok (), r) ∧
      w.firesOn (first.drawn before.length) ∧
      (applyEffect scope w.effect).run.run r = (.error halt, v) ∧
      Parted (first.after (before.length + 1)) second u v := by
  rw [Call.act_eq] at hrun
  rcases run_bind_eq_error.mp hrun with hfails | ⟨_, r, hfirst, hfails⟩
  · cases he : c.event.effect with
    | none =>
      rw [he] at hfails
      cases hfails
    | some effect =>
      rw [he, Option.toList_some, applyEffects_singleton] at hfails
      obtain ⟨v, hv, huv⟩ := (agrees_applyEffect_parted (heffect effect he) scope _ _ hst).of_run hfails
      exact .inl ⟨effect, v, rfl, hv, huv⟩
  · obtain ⟨r', hfirst', hr⟩ := (agrees_ofEffect heffect _ _ hst).of_run hfirst
    obtain ⟨before, w, after, q, v, hsplit, hbefore, hfires, hv, huv⟩ :=
      fired_of_applyWeighted_fails hweighted hr hfails
    refine .inr ⟨before, w, after, q, v, hsplit, ?_, hfires, hv, huv⟩
    rw [applyEffects_append]
    exact run_bind_eq_ok.mpr ⟨(), r', hfirst', hbefore⟩

theorem fires_iff (heffect : ∀ e, c.event.effect = some e → e.Drawless)
    (hweighted : ∀ w ∈ c.event.weighted, w.effect.Drawless)
    (hrun : (c.act scope).run.run s = (.ok (), u)) (i : Nat) :
    c.Fires scope s i ↔
      ∃ w, c.event.weighted[i]? = some w ∧ w.firesOn (s.ambient.chance.drawn i) := by
  rw [c.act_eq_upTo scope i] at hrun
  obtain ⟨_, t, hupTo, -⟩ := run_bind_eq_ok.mp hrun
  have hchance {w : WeightedEffect} (hw : c.event.weighted[i]? = some w) :
      t.ambient.chance = s.ambient.chance.after i := by
    obtain ⟨v, -, htv⟩ := fired_of_act (c := c.upTo i) heffect
      (fun w hw => hweighted w (List.mem_of_mem_take hw)) (.self s) hupTo
    have hlength : (c.upTo i).event.weighted.length = i :=
      List.length_take_of_le (Nat.le_of_lt (List.getElem?_eq_some_iff.mp hw).1)
    rw [htv.chance, hlength]
  constructor
  · rintro ⟨w, t', hw, hupTo', hfires⟩
    obtain rfl := (Prod.mk.inj (hupTo.symm.trans hupTo')).2
    exact ⟨w, hw, by rwa [hchance hw] at hfires⟩
  · rintro ⟨w, hw, hfires⟩
    exact ⟨w, t, hw, hupTo, by rwa [hchance hw]⟩

end

/-! ### Events -/

/-- How an event comes out whose rolls are the only draws: how many it takes, its outcome and the
worlds that it leaves. The effects are those that are run if nothing is rolled for. -/
inductive Call.Rolls (c : Call) (r : Request) (a : Arena) : Nat → Outcome → Table Realm → Prop
  | unmet : (c.check r a).1 = .ok false → c.Rolls r a 0 (.skipped .requirementsNotMet) a.realms
  | done {t : Stage} : (c.check r a).1 = .ok true →
      (applyEffects (c.scope r.parameters)
        (c.event.effect.toList ++ fired a.ambient.chance c.event.weighted)).run.run (c.begun a) =
          (.ok (), t) →
      c.Rolls r a c.event.weighted.length ⟨true, t.changes, [], t.warnings⟩
        (a.settle r.worldId t anyChange).realms
  | effectFails {effect : Expr} {error : EffectError} {t : Stage} : (c.check r a).1 = .ok true →
      c.event.effect = some effect →
      (applyEffect (c.scope r.parameters) effect).run.run (c.begun a) =
        (.error (.rejected error), t) →
      c.Rolls r a 0 ⟨false, t.changes, [.effect error], t.warnings⟩
        (a.settle r.worldId t anyChange).realms
  | weightedFails {before after : List WeightedEffect} {w : WeightedEffect} {error : EffectError}
      {s t : Stage} : (c.check r a).1 = .ok true → c.event.weighted = before ++ w :: after →
      (applyEffects (c.scope r.parameters)
        (c.event.effect.toList ++ fired a.ambient.chance before)).run.run (c.begun a) =
          (.ok (), s) →
      w.firesOn (a.ambient.chance.drawn before.length) →
      (applyEffect (c.scope r.parameters) w.effect).run.run s = (.error (.rejected error), t) →
      c.Rolls r a (before.length + 1) ⟨false, t.changes, [.effect error], t.warnings⟩
        (a.settle r.worldId t anyChange).realms

def Arena.withChance (a : Arena) (chance : Chance) : Arena :=
  { a with ambient := { a.ambient with chance } }

theorem Arena.chance_settle (a : Arena) (id : String) (s : Stage)
    (stamped : List Change → Bool) : (a.settle id s stamped).ambient.chance = s.ambient.chance := by
  unfold settle
  dsimp only
  split <;> rfl

theorem Stage.Parted.settle {first second : Chance} {s t : Stage} (h : Parted first second s t)
    (a : Arena) (id : String) (stamped : List Change → Bool) :
    (a.settle id t stamped).realms = (a.settle id s stamped).realms := by
  obtain ⟨_, ⟨-, -, chance, lines, rfl⟩, rfl⟩ := h
  unfold Arena.settle
  dsimp only
  split <;> rfl

section

variable {programs : Programs} {r : Request} {a b : Arena} {c : Call} {o : Outcome}

theorem check_drawless {result : Except Fault Bool}
    (hcondition : ∀ e, c.event.condition = some e → e.Drawless)
    (h : c.check r a = (result, b)) : b = a := by
  have hcertain : (holds defaultPlaceholder ((c.begun a).bindings (c.scope r.parameters))
      c.event.condition).Certain := certain_holds hcondition
  obtain ⟨sure, hsure⟩ := hcertain
  have hcheck : c.check r a = (sure, a) := Run.run_eval_certain hsure a
  exact (Prod.mk.inj (h.symm.trans hcheck)).2

theorem rolls_of_apply (hmet : (c.check r a).1 = .ok true)
    (heffect : ∀ e, c.event.effect = some e → e.Drawless)
    (hweighted : ∀ w ∈ c.event.weighted, w.effect.Drawless)
    (hrun : (c.apply r.worldId (c.scope r.parameters)).run.run a = (.ok o, b)) :
    ∃ draws, c.Rolls r a draws o b.realms ∧
      b.ambient.chance = a.ambient.chance.after draws := by
  have hself := Parted.self (c.begun a)
  rw [c.run_apply] at hrun
  generalize hact : (c.act (c.scope r.parameters)).run.run (c.begun a) = result at hrun
  obtain ⟨result, u⟩ := result
  match result with
  | .ok () =>
    cases hrun
    obtain ⟨v, hv, huv⟩ := fired_of_act heffect hweighted hself hact
    have hrolls := Call.Rolls.done hmet hv
    rw [huv.report.1, huv.report.2, huv.settle] at hrolls
    exact ⟨_, hrolls, (a.chance_settle _ _ _).trans huv.chance⟩
  | .error (.rejected error) =>
    cases hrun
    rcases fired_of_act_fails heffect hweighted hself hact with
      ⟨effect, v, he, hv, huv⟩ | ⟨before, w, after, s, v, hsplit, hbefore, hfires, hv, huv⟩
    · have hrolls := Call.Rolls.effectFails hmet he hv
      rw [huv.report.1, huv.report.2, huv.settle] at hrolls
      exact ⟨_, hrolls, (a.chance_settle _ _ _).trans huv.chance⟩
    · have hrolls := Call.Rolls.weightedFails hmet hsplit hbefore hfires hv
      rw [huv.report.1, huv.report.2, huv.settle] at hrolls
      exact ⟨_, hrolls, (a.chance_settle _ _ _).trans huv.chance⟩
  | .error (.fault fault) => cases hrun

theorem act_of_success (hcall : r.call programs a.realms = .ok c)
    (hcondition : ∀ e, c.event.condition = some e → e.Drawless)
    (hrun : (runEvent programs r).run.run a = (.ok o, b)) (hsuccess : o.success = true) :
    ∃ u, (c.act (c.scope r.parameters)).run.run (c.begun a) = (.ok (), u) := by
  rcases run_runEvent hcall hrun with ⟨-, rfl⟩ | ⟨a', hcheck, happly⟩
  · cases hsuccess
  · obtain rfl := (check_drawless hcondition hcheck).symm
    rw [c.run_apply] at happly
    generalize (c.act (c.scope r.parameters)).run.run (c.begun a) = result at happly
    obtain ⟨result, u⟩ := result
    match result with
    | .ok () => exact ⟨u, rfl⟩
    | .error (.rejected error) =>
      cases happly
      cases hsuccess
    | .error (.fault fault) => cases happly

/-- An event in which nothing else draws takes one draw for each roll that it comes to, and does
what its effect and the weighted effects that fire would do alone. Another draw at one place
changes nothing at the others, unless an effect fails. -/
theorem runEvent_rolls (hcall : r.call programs a.realms = .ok c) (hdrawless : c.event.Drawless)
    (hrun : (runEvent programs r).run.run a = (.ok o, b)) :
    (∃ draws, c.Rolls r a draws o b.realms ∧
      b.ambient.chance = a.ambient.chance.after draws) ∧
    ∀ chance place o' b', (∀ i < c.event.weighted.length, i ≠ place →
        chance.drawn i = a.ambient.chance.drawn i) →
      (runEvent programs r).run.run (a.withChance chance) = (.ok o', b') →
      o.success = true → o'.success = true → ∀ i, i ≠ place →
        (c.Fires (c.scope r.parameters) (c.begun (a.withChance chance)) i ↔
          c.Fires (c.scope r.parameters) (c.begun a) i) := by
  have hcondition := fun e => hdrawless.condition (e := e)
  have heffect := fun e => hdrawless.effect (e := e)
  have hweighted := fun w => hdrawless.weighted (w := w)
  constructor
  · rcases run_runEvent hcall hrun with ⟨hcheck, rfl⟩ | ⟨a', hcheck, happly⟩
    · obtain rfl := check_drawless hcondition hcheck
      exact ⟨0, .unmet (by rw [hcheck]), rfl⟩
    · obtain rfl := check_drawless hcondition hcheck
      exact rolls_of_apply (by rw [hcheck]) heffect hweighted happly
  · intro chance place o' b' hchance hrun' ho ho' i hi
    obtain ⟨u, hact⟩ := act_of_success hcall hcondition hrun ho
    obtain ⟨u', hact'⟩ := act_of_success (a := a.withChance chance) hcall hcondition hrun' ho'
    rw [fires_iff heffect hweighted hact, fires_iff heffect hweighted hact']
    refine exists_congr fun w => and_congr_right fun hw => ?_
    have hlt : i < c.event.weighted.length := (List.getElem?_eq_some_iff.mp hw).1
    show w.firesOn (chance.drawn i) ↔ w.firesOn (a.ambient.chance.drawn i)
    rw [hchance i hlt hi]

end

/-- Miners dig for gold, which may double and may grow by ten. -/
def dig : EventDecl where
  name := "dig"
  condition := some (.binary "<" (.property "Self" "gold") (.literal (.int 9)))
  target := none
  effect := some (.assignment "+=" (.property "Self" "gold") (.literal (.int 1)))
  weighted := [⟨.assignment "*=" (.property "Self" "gold") (.literal (.int 2)), 0.5⟩,
    ⟨.assignment "+=" (.property "Self" "gold") (.literal (.int 10)), 0.5⟩]

def mine : Program := ⟨[⟨"Miner", [⟨"gold", .scalar .int⟩], [dig], 1⟩], [], []⟩

def mineArena (draws : List Nat) : Arena :=
  ⟨[("world", Realm.create mine.entities 0)], ⟨[], .cyclic draws 0, 0, 0, []⟩⟩

def digRequest : Request :=
  ⟨"spec", some "world", some "Miner", some "Miner_0", some "dig", none, []⟩

/-- What digging comes to: whether it succeeds, and the new values of gold. -/
def dug (draws : List Nat) : Option (Bool × List String) :=
  match ((runEvent (fun _ => some mine) digRequest).run.run (mineArena draws)).1 with
  | .ok o => some (o.success, o.changes.map (·.new.text))
  | .error _ => none

theorem run_of_dug {draws : List Nat} {success : Bool} {news : List String}
    (h : dug draws = some (success, news)) : ∃ o b,
      (runEvent (fun _ => some mine) digRequest).run.run (mineArena draws) = (.ok o, b) ∧
        o.success = success ∧ o.changes.map (·.new.text) = news := by
  unfold dug at h
  generalize (runEvent (fun _ => some mine) digRequest).run.run (mineArena draws) = result at h ⊢
  obtain ⟨result, b⟩ := result
  cases result with
  | ok o =>
    cases h
    exact ⟨o, b, rfl, rfl, rfl⟩
  | error fault => cases h

/-- The first effect fires and the second does not. With another first draw none of them fires. -/
theorem runEvent_rolls_dig : ∃ c o b,
    digRequest.call (fun _ => some mine) (mineArena [0, twoPow 53 - 1]).realms = .ok c ∧
    c.event.Drawless ∧
    (runEvent (fun _ => some mine) digRequest).run.run (mineArena [0, twoPow 53 - 1]) = (.ok o, b) ∧
    o.changes.map (·.new.text) = ["1", "2"] ∧ b.ambient.chance = .cyclic [0, twoPow 53 - 1] 2 ∧
    dug [twoPow 53 - 1, twoPow 53 - 1] = some (true, ["1"]) ∧
    (c.Fires (c.scope []) (c.begun (mineArena [twoPow 53 - 1, twoPow 53 - 1])) 1 ↔
      c.Fires (c.scope []) (c.begun (mineArena [0, twoPow 53 - 1])) 1) := by
  obtain ⟨c, hcall, hevent⟩ : ∃ c,
      digRequest.call (fun _ => some mine) (mineArena [0, twoPow 53 - 1]).realms = .ok c ∧
        c.event = dig := ⟨_, rfl, rfl⟩
  have hdrawless : c.event.Drawless := by
    rw [hevent]
    decide
  have hdug : dug [0, twoPow 53 - 1] = some (true, ["1", "2"]) := by decide +kernel
  have hdug' : dug [twoPow 53 - 1, twoPow 53 - 1] = some (true, ["1"]) := by decide +kernel
  obtain ⟨o, b, hrun, hsuccess, hnews⟩ := run_of_dug hdug
  obtain ⟨o', b', hrun', hsuccess', -⟩ := run_of_dug hdug'
  obtain ⟨⟨draws, hrolls, hchance⟩, hothers⟩ := runEvent_rolls hcall hdrawless hrun
  have hdraws : draws = 2 := by
    generalize b.realms = realms at hrolls
    cases hrolls with
    | unmet => cases hsuccess
    | done => rw [hevent]; rfl
    | effectFails => cases hsuccess
    | weightedFails => cases hsuccess
  subst hdraws
  refine ⟨c, o, b, hcall, hdrawless, hrun, hnews, hchance, hdug', ?_⟩
  refine hothers _ 0 o' b' (fun i hi hne => ?_) hrun' hsuccess hsuccess' 1 (by decide)
  rw [hevent] at hi
  have hlt : i < 2 := hi
  obtain rfl : i = 1 := by omega
  rfl

end StepWorld
