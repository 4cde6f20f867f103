import StepWorld.Proofs.World.ExactWorlds
import StepWorld.Proofs.World.OwnWrites

/-! Stocks. A stock is a property from which effects only take, and never more than is there: where
it is a whole number that is not negative it stays one, and each change of it tells what was taken.
-/

namespace StepWorld

/-! ### Programs -/

/-- Whether a part of an effect sets a property by anything but taking from it. -/
def Expr.lowers (property : String) : Expr → Bool
  | .assignment op (.property _ name) _ => name != property || op == "-="
  | _ => true

/-- The effects of an event, the weighted ones included. -/
def EventDecl.effects (event : EventDecl) : List Expr :=
  event.effect.toList ++ event.weighted.map (·.effect)

/-- Whoever's property of that name an event sets, it only takes from it. -/
def EventDecl.Lowers (property : String) (event : EventDecl) : Prop :=
  ∀ effect ∈ event.effects, ∀ part ∈ effect.nodes, part.lowers property = true

def Program.Lowers (property : String) (p : Program) : Prop :=
  ∀ entity ∈ p.entities, ∀ event ∈ entity.events, event.Lowers property

instance (property : String) : DecidablePred (Program.Lowers property) := fun p =>
  inferInstanceAs (Decidable (∀ entity ∈ p.entities, ∀ event ∈ entity.events,
    ∀ effect ∈ event.effects, ∀ part ∈ effect.nodes, part.lowers property = true))

/-! ### Worlds -/

/-- A property is a whole number that is not negative, if it is there. -/
def Record.Stocks (property : String) (r : Record) : Prop :=
  ∀ v, r.get? property = some v → ∃ n : Nat, v = .int n

/-- A property is a whole number that is not negative in every instance that has it. -/
def World.Stocks (property : String) (w : World) : Prop :=
  w.entities.All fun is => ∀ i ∈ is, i.state.Stocks property

def Value.isCount : Value → Bool
  | .int n => 0 ≤ n
  | _ => false

theorem Value.isCount_iff {v : Value} : v.isCount = true ↔ ∃ n : Nat, v = .int n := by
  cases v with
  | int m =>
    refine ⟨fun h => ⟨m.toNat, ?_⟩, ?_⟩
    · rw [Int.toNat_of_nonneg (of_decide_eq_true h)]
    · rintro ⟨n, h⟩
      cases h
      exact decide_eq_true (Int.natCast_nonneg n)
  | _ => simp [isCount]

instance (property : String) : DecidablePred (Record.Stocks property) := fun r =>
  decidable_of_iff ((r.get? property).all Value.isCount = true) <| by
    unfold Record.Stocks
    simp only [← Value.isCount_iff]
    cases r.get? property <;> simp

instance (property : String) : DecidablePred (World.Stocks property) := fun w =>
  inferInstanceAs (Decidable (w.entities.All fun is => ∀ i ∈ is, i.state.Stocks property))

variable {property : String}

theorem Record.Stocks.put {r : Record} (h : r.Stocks property) {name : String} {value : Value}
    (hvalue : name = property → ∃ n : Nat, value = .int n) :
    Record.Stocks property (r.put name value) := by
  intro v hv
  rw [Table.get?_put] at hv
  split at hv
  · next hname =>
    cases hv
    exact hvalue hname.symm
  · exact h v hv

theorem World.Stocks.modifyInstance {w : World} (h : w.Stocks property) {type id : String}
    {f : Instance → Instance} (hf : ∀ i, i.state.Stocks property → (f i).state.Stocks property) :
    (w.modifyInstance type id f).Stocks property := by
  refine Table.All.modify h fun is his i hi => ?_
  rcases World.mem_modifyFirst hi with hi | ⟨j, hj, rfl⟩
  · exact his i hi
  · exact hf j (his j hj)

/-! ### Assignments -/

def Stage.valueOf (s : Stage) (k : Handle) (name : String) : Value :=
  ((s.stateOf k).bind (Table.get? name)).getD .null

section

variable {scope : Scope} {op owner name : String} {value : Expr} {old v new : Value} {s t : Stage}

theorem Act.left_of_eval {α : Type} (x : Eval α) (s : Stage) :
    ∃ chance, ((Act.eval x).run.run s).2 = { s with ambient := { s.ambient with chance } } := by
  unfold Act.eval
  simp only [ExceptT.run, ExceptT.mk, StateT.run]
  split <;> exact ⟨_, rfl⟩

/-- What an assignment leaves behind: nothing that matters, or one property of its owner is set and
one change listed, which tells the value before. -/
theorem left_of_assignProperty (scope : Scope) (op owner name : String) (value : Expr) (s : Stage) :
    Stage.Aside s ((assignProperty scope op owner name value).run.run s).2 ∨
    ∃ k v new change u, s.owner? scope owner = some k ∧
      ((evaluate defaultPlaceholder (s.bindings scope) value).run.run s.ambient.chance).1 = .ok v ∧
      (op = "=" ∧ change = .assigned k.id name (s.valueOf k name) new ∨
        change = .modified k.id name (s.valueOf k name) new ∧
        ∃ r, (modifiedValue op owner name (s.valueOf k name) v).run.run r = (.ok new, u)) ∧
      Stage.Aside s u ∧
      Stage.Aside ((u.setProperty k name new).addChange change)
        ((assignProperty scope op owner name value).run.run s).2 := by
  unfold assignProperty
  rw [run_get_bind]
  cases ho : s.owner? scope owner with
  | none => exact .inl (Std.Refl.refl s)
  | some k =>
    dsimp only
    rw [run_get_bind, run_bind]
    have haside := Act.aside_eval (evaluate defaultPlaceholder (s.bindings scope) value) s
    obtain ⟨chance, hleft⟩ :=
      Act.left_of_eval (evaluate defaultPlaceholder (s.bindings scope) value) s
    rcases heval : (Act.eval (evaluate defaultPlaceholder (s.bindings scope) value)).run.run s with
      ⟨_ | v, r⟩
    · rw [heval] at haside
      exact .inl haside
    · rw [heval] at haside hleft
      dsimp only at haside hleft ⊢
      rw [run_get_bind]
      -- Of the stage the value changes the source of chance alone, so that the old value stands.
      have hold : r.valueOf k name = s.valueOf k name := by rw [hleft]; rfl
      have hvalue : ((r.stateOf k).bind (Table.get? name)).getD .null = r.valueOf k name := rfl
      rw [hvalue]
      have hset {u : Stage} {new : Value} {change : Change} : Stage.Aside
          ((u.setProperty k name new).addChange change) (((do
            modify fun s => (s.setProperty k name new).addChange change
            showChange k name (r.valueOf k name) new : Act Unit).run.run u).2) :=
        aside_showChange k name (r.valueOf k name) new ((u.setProperty k name new).addChange change)
      split
      · next hop =>
        refine .inr ⟨k, v, v, .assigned k.id name (s.valueOf k name) v, r, rfl,
          Act.eval_eq_ok heval, .inl ⟨hop, rfl⟩, haside, ?_⟩
        rw [← hold]
        exact hset
      · have hmoved := aside_modifiedValue op owner name (r.valueOf k name) v r
        rw [run_bind]
        rcases hmodified : (modifiedValue op owner name (r.valueOf k name) v).run.run r with
          ⟨_ | new, u⟩
        · rw [hmodified] at hmoved
          exact .inl (Trans.trans haside hmoved)
        · rw [hmodified] at hmoved
          refine .inr ⟨k, v, new, .modified k.id name (s.valueOf k name) new, u, rfl,
            Act.eval_eq_ok heval, .inr ⟨rfl, r, ?_⟩, Trans.trans haside hmoved, ?_⟩
          · rw [← hold]
            exact hmodified
          · rw [← hold]
            exact hset

theorem Value.int_of_number? {n : Int} (h : v.number? = some (.whole n)) : v = .int n := by
  cases v <;> cases h
  rfl

theorem Number.relation_whole_eq_greater {m n : Int} :
    (Number.whole m).relation (.whole n) = .greater ↔ n < m := by
  rw [← Int.compare_eq_gt]
  change Relation.ofOrdering (compare m n) = .greater ↔ _
  cases compare m n <;> decide

theorem taken_of_modifiedValue (hold : old.isExact = true) (hv : v.isExact = true)
    (h : (modifiedValue "-=" owner name old v).run.run s = (.ok new, t)) :
    ∃ m k : Int, old = .int m ∧ v = .int k ∧ new = .int (max 0 (m - k)) := by
  unfold modifiedValue at h
  split at h
  · next a b ha hb =>
    obtain ⟨m, rfl⟩ := Value.whole_of_number? hold ha
    obtain ⟨k, rfl⟩ := Value.whole_of_number? hv hb
    have hdifference : floorDifference (.whole m) (.whole k) =
        .ok (if (Number.whole (m - k)).relation (.whole 0) = .greater then Number.whole (m - k)
          else .whole 0).toValue := rfl
    rw [if_neg (by decide), if_pos rfl, hdifference] at h
    cases h
    refine ⟨m, k, Value.int_of_number? ha, Value.int_of_number? hb, ?_⟩
    split
    · next hleft =>
      rw [Int.max_eq_right (Int.le_of_lt (Number.relation_whole_eq_greater.mp hleft))]
      rfl
    · next hnone =>
      have hle : m - k ≤ 0 :=
        Int.not_lt.mp fun hleft => hnone (Number.relation_whole_eq_greater.mpr hleft)
      rw [Int.max_eq_left hle]
      rfl
  · obtain ⟨_, _, _, h⟩ := run_bind_eq_ok.mp h
    cases h

end

/-- A change has taken from a property what the right side of an assignment came to there, and at
most what there was. -/
inductive Scope.Takes (scope : Scope) (property : String) (Reached : Expr → Stage → Prop) :
    Change → Prop
  | take {owner : String} {value : Expr} {s : Stage} {k : Handle} {old taken : Int} :
      Reached (.assignment "-=" (.property owner property) value) s →
      s.owner? scope owner = some k → s.valueOf k property = .int old →
      ((evaluate defaultPlaceholder (s.bindings scope) value).run.run s.ambient.chance).1 =
        .ok (.int taken) →
      scope.Takes property Reached (.modified k.id property (.int old) (.int (max 0 (old - taken))))

theorem Scope.Takes.mono {scope : Scope} {P Q : Expr → Stage → Prop} {change : Change}
    (h : scope.Takes property P change) (hweaker : ∀ op target value s,
      P (.assignment op target value) s → Q (.assignment op target value) s) :
    scope.Takes property Q change := by
  obtain ⟨hreached, ho, hold, htaken⟩ := h
  exact .take (hweaker _ _ _ _ hreached) ho hold htaken

structure Stage.Stocked (property : String) (Q : Change → Prop) (s : Stage) : Prop where
  exact : s.Exact
  world : s.realm.world.Stocks property
  taken : ∀ change ∈ s.changes, change.property? = some property → Q change

/-! ### Effects -/

namespace Stage

variable {s t : Stage} {Q : Change → Prop}

theorem Exact.valueOf (h : s.Exact) (k : Handle) (name : String) :
    (s.valueOf k name).isExact = true := by
  unfold Stage.valueOf
  cases hget : (s.stateOf k).bind (Table.get? name) with
  | none => rfl
  | some old =>
    obtain ⟨r, hr, hold⟩ := Option.bind_eq_some_iff.mp hget
    exact (h.stateOf hr).get? hold

theorem stocks_setProperty (h : s.realm.world.Stocks property) (k : Handle) {name : String}
    {value : Value} (hvalue : name = property → ∃ n : Nat, value = .int n) :
    (s.setProperty k name value).realm.world.Stocks property := by
  unfold setProperty
  split
  · exact h.modifyInstance fun i hi => hi.put hvalue
  · exact h

theorem changes_setProperty (s : Stage) (k : Handle) (name : String) (value : Value) :
    (s.setProperty k name value).changes = s.changes := by
  unfold setProperty
  split <;> rfl

namespace Stocked

theorem aside (h : s.Stocked property Q) (ht : Stage.Aside s t) (hexact : t.Exact) :
    t.Stocked property Q :=
  ⟨hexact, ht.realm ▸ h.world, ht.changes ▸ h.taken⟩

theorem assigned {u : Stage} (h : s.Stocked property Q) (hu : Stage.Aside s u) {k : Handle}
    {name : String} {new : Value} {change : Change}
    (ht : Stage.Aside ((u.setProperty k name new).addChange change) t) (hexact : t.Exact)
    (hnew : name = property → ∃ n : Nat, new = .int n)
    (hchange : change.property? = some property → Q change) : t.Stocked property Q := by
  refine ⟨hexact, ?_, ?_⟩
  · rw [ht.realm]
    exact stocks_setProperty (hu.realm ▸ h.world) k hnew
  · rw [ht.changes]
    intro c hc
    rcases List.mem_append.mp hc with hc | hc
    · exact h.taken c (hu.changes ▸ u.changes_setProperty k name new ▸ hc)
    · obtain rfl := List.mem_singleton.mp hc
      exact hchange

end Stocked

end Stage

/-- Nothing in an effect brings in a float, adds or removes anybody, or sets a property but by
taking from it. -/
def Expr.Saves (property : String) (effect : Expr) : Prop :=
  ∀ part ∈ effect.nodes, part.isExact = true ∧ part.populates = false ∧ part.lowers property = true

theorem Scope.Begins.head {scope : Scope} {effect part : Expr} {rest : List Expr} {s t : Stage}
    (h : scope.Begins effect s part t) : scope.Begins (.sequence (effect :: rest)) s part t :=
  have hnone : (applyEffects scope []).run.run s = (.ok (), s) := rfl
  .part hnone h

theorem Scope.Begins.cons {scope : Scope} {effect target value : Expr} {rest : List Expr}
    {op : String} {s t u : Stage} (happlied : (applyEffect scope effect).run.run s = (.ok (), t))
    (h : scope.Begins (.sequence rest) t (.assignment op target value) u) :
    scope.Begins (.sequence (effect :: rest)) s (.assignment op target value) u := by
  cases h with
  | @part before after next _ _ r _ hbefore hrest =>
    have hcons : (applyEffects scope (effect :: before)).run.run s = (.ok (), r) := by
      unfold applyEffects
      exact run_bind_eq_ok.mpr ⟨(), t, happlied, hbefore⟩
    exact .part hcons hrest

section

variable {scope : Scope} {Q : Change → Prop}

theorem stocked_assignProperty (hscope : scope.vars.Exact) {op owner name : String} {value : Expr}
    (hop : op ≠ "/=") (hlowers : name = property → op = "-=") (hvalue : value.Exact) {s : Stage}
    (hs : s.Stocked property Q)
    (hQ : ∀ change, scope.Takes property
      (fun part t => part = .assignment op (.property owner name) value ∧ t = s) change →
        Q change) :
    ((assignProperty scope op owner name value).run.run s).2.Stocked property Q := by
  have hexact := (Act.meets_assignProperty hscope hop owner name hvalue s hs.exact).state
  rcases left_of_assignProperty scope op owner name value s with
    haside | ⟨k, v, new, change, u, ho, hv, hchange, hu, ht⟩
  · exact hs.aside haside hexact
  by_cases hname : name = property
  · obtain rfl := hlowers hname
    subst hname
    obtain ⟨hplain, -⟩ | ⟨rfl, r, hmodified⟩ := hchange
    · exact absurd hplain (by decide)
    have hevaluated := (yields_evaluate defaultPlaceholder (hs.exact.bindings hscope) value hvalue
      s.ambient.chance trivial).result
    rw [hv] at hevaluated
    obtain ⟨old, taken, hold, rfl, rfl⟩ :=
      taken_of_modifiedValue (hs.exact.valueOf k name) hevaluated hmodified
    refine hs.assigned hu ht hexact (fun _ => ⟨(max 0 (old - taken)).toNat, ?_⟩) fun _ => ?_
    · rw [Int.toNat_of_nonneg (Int.le_max_left _ _)]
    · rw [hold]
      exact hQ _ (.take ⟨rfl, rfl⟩ ho hold hv)
  · refine hs.assigned hu ht hexact (fun h => absurd h hname) fun h => ?_
    have hset : change.property? = some name := by
      obtain ⟨-, rfl⟩ | ⟨rfl, -⟩ := hchange <;> rfl
    exact absurd (Option.some.inj (hset.symm.trans h)) hname

mutual

theorem stocked_applyEffect (hscope : scope.vars.Exact) (effect : Expr)
    (heffect : effect.Saves property) {s : Stage} (hs : s.Stocked property Q)
    (hQ : ∀ change, scope.Takes property (scope.Begins effect s) change → Q change) :
    ((applyEffect scope effect).run.run s).2.Stocked property Q := by
  obtain ⟨hself, hpopulates, hlowers⟩ := heffect effect effect.mem_nodes
  unfold applyEffect
  split
  · next op target value =>
    have hvalue : value.Exact := fun part hpart =>
      (heffect part (List.mem_cons_of_mem _ (List.mem_append_right _ hpart))).1
    have hop : op ≠ "/=" := by simpa [Expr.isExact] using hself
    unfold assign
    split
    · next owner name =>
      have hlowers : name = property → op = "-=" := by
        simpa [Expr.lowers, or_iff_not_imp_left] using hlowers
      refine stocked_assignProperty hscope hop hlowers hvalue hs fun change hchange =>
        hQ change (hchange.mono ?_)
      rintro _ _ _ _ ⟨hpart, rfl⟩
      exact hpart ▸ .whole _ _
    · exact hs
  · next parts =>
    have hparts := fun part hpart => heffect part (List.mem_cons_of_mem _ hpart)
    exact stocked_applyEffects hscope parts hparts hs hQ
  · cases hpopulates
  · cases hpopulates
  · exact ⟨⟨hs.exact.realm, hs.exact.departed⟩, hs.world, hs.taken⟩
  · exact ⟨⟨hs.exact.realm, hs.exact.departed⟩, hs.world, hs.taken⟩

theorem stocked_applyEffects (hscope : scope.vars.Exact) (effects : List Expr)
    (heffects : ∀ part ∈ Expr.nodesOf effects,
      part.isExact = true ∧ part.populates = false ∧ part.lowers property = true)
    {s : Stage} (hs : s.Stocked property Q)
    (hQ : ∀ change, scope.Takes property (scope.Begins (.sequence effects) s) change → Q change) :
    ((applyEffects scope effects).run.run s).2.Stocked property Q := by
  match effects with
  | [] =>
    unfold applyEffects
    exact hs
  | effect :: rest =>
    have hfirst := stocked_applyEffect hscope effect
      (fun part hpart => heffects part (List.mem_append_left _ hpart)) hs fun change hchange =>
        hQ change (hchange.mono fun _ _ _ _ hbegins => hbegins.head)
    unfold applyEffects
    rw [run_bind]
    rcases hrun : (applyEffect scope effect).run.run s with ⟨_ | _, t⟩
    · rw [hrun] at hfirst
      exact hfirst
    · rw [hrun] at hfirst
      exact stocked_applyEffects hscope rest
        (fun part hpart => heffects part (List.mem_append_right _ hpart)) hfirst
        fun change hchange => hQ change (hchange.mono fun _ _ _ _ hbegins => hbegins.cons hrun)

end

theorem stocked_applyWeighted (hscope : scope.vars.Exact) (label : String)
    {weighted : List WeightedEffect} (hweighted : ∀ w ∈ weighted, w.effect.Saves property)
    {s : Stage} (hs : s.Stocked property Q)
    (hQ : ∀ before w after t change, weighted = before ++ w :: after →
      (applyWeighted scope label before).run.run s = (.ok (), t) →
      w.firesOn t.ambient.chance.draw.1 →
      scope.Takes property (scope.Begins w.effect (t.roll label w)) change → Q change) :
    ((applyWeighted scope label weighted).run.run s).2.Stocked property Q := by
  induction weighted generalizing s with
  | nil => exact hs
  | cons w rest ih =>
    obtain ⟨hfirst, hrest⟩ := List.forall_mem_cons.mp hweighted
    have hroll : (s.roll label w).Stocked property Q := by
      obtain ⟨chance, lines, hroll⟩ := s.roll_eq label w
      rw [hroll]
      exact ⟨⟨hs.exact.realm, hs.exact.departed⟩, hs.world, hs.taken⟩
    rw [run_applyWeighted_cons]
    split
    · next hfires =>
      have happlied := stocked_applyEffect hscope w.effect hfirst hroll
        fun change => hQ [] w rest s change rfl rfl hfires
      rw [run_bind]
      rcases hrun : (applyEffect scope w.effect).run.run (s.roll label w) with ⟨_ | _, t⟩
      · rw [hrun] at happlied
        exact happlied
      · rw [hrun] at happlied
        refine ih hrest happlied fun before next after u change hsplit hbefore =>
          hQ (w :: before) next after u change (congrArg (w :: ·) hsplit) ?_
        rw [run_applyWeighted_cons, if_pos hfires]
        exact run_bind_eq_ok.mpr ⟨(), t, hrun, hbefore⟩
    · next hfires =>
      refine ih hrest hroll fun before next after u change hsplit hbefore =>
        hQ (w :: before) next after u change (congrArg (w :: ·) hsplit) ?_
      rw [run_applyWeighted_cons, if_neg hfires]
      exact hbefore

end

/-! ### Events -/

def Call.Takes (c : Call) (r : Request) (a : Arena) (property : String) : Change → Prop :=
  (c.scope r.parameters).Takes property (c.Reaches r a)

/-- Nothing in an event brings in a float, adds or removes anybody, or sets a property but by taking
from it. -/
def EventDecl.Saves (property : String) (event : EventDecl) : Prop :=
  ∀ effect ∈ event.effects, effect.Saves property

section

variable {c : Call} {scope : Scope} {Q : Change → Prop} {s : Stage}

theorem stocked_callAct (hscope : scope.vars.Exact) (hevent : c.event.Saves property)
    (hs : s.Stocked property Q)
    (heffect : ∀ effect change, c.event.effect = some effect →
      scope.Takes property (scope.Begins effect s) change → Q change)
    (hweighted : ∀ i w t change, c.event.weighted[i]? = some w →
      ((c.upTo i).act scope).run.run s = (.ok (), t) → w.firesOn t.ambient.chance.draw.1 →
      scope.Takes property (scope.Begins w.effect (t.roll c.label w)) change → Q change) :
    ((c.act scope).run.run s).2.Stocked property Q := by
  have happlied : ((applyEffects scope c.event.effect.toList).run.run s).2.Stocked property Q := by
    cases he : c.event.effect with
    | none => exact hs
    | some effect =>
      rw [Option.toList_some, applyEffects_singleton]
      refine stocked_applyEffect hscope effect (hevent effect ?_) hs
        fun change => heffect effect change he
      exact List.mem_append_left _ (he ▸ List.mem_singleton_self effect)
  rw [Call.act_eq, run_bind]
  rcases hrun : (applyEffects scope c.event.effect.toList).run.run s with ⟨_ | _, t⟩
  · rw [hrun] at happlied
    exact happlied
  · rw [hrun] at happlied
    refine stocked_applyWeighted hscope c.label (fun w hw => hevent _ ?_) happlied
      fun before w after u change hsplit hbefore => hweighted before.length w u change ?_ ?_
    · exact List.mem_append_right _ (List.mem_map_of_mem hw)
    · rw [hsplit, List.getElem?_append_right (Nat.le_refl _), Nat.sub_self]
      rfl
    · rw [Call.act_eq]
      refine run_bind_eq_ok.mpr ⟨(), t, hrun, ?_⟩
      have htake : (c.upTo before.length).event.weighted = before := by
        change c.event.weighted.take before.length = before
        rw [hsplit, List.take_left]
      rw [htake]
      exact hbefore

end

structure Program.Saves (property : String) (p : Program) : Prop where
  exact : p.Exact
  settled : p.Settled
  lowers : p.Lowers property

theorem Program.Saves.event {p : Program} (h : p.Saves property) {entity : EntityDecl}
    (hentity : entity ∈ p.entities) {event : EventDecl} (hevent : event ∈ entity.events) :
    event.Saves property := by
  have hexact := h.exact.event hentity hevent
  have hsettled := h.settled entity hentity event hevent
  intro effect heffect part hpart
  have hlowers := h.lowers entity hentity event hevent effect heffect part hpart
  rcases List.mem_append.mp heffect with heffect | heffect
  · have he := Option.mem_toList.mp heffect
    exact ⟨hexact.effect effect he part hpart, hsettled.effect effect he part hpart, hlowers⟩
  · obtain ⟨w, hw, rfl⟩ := List.mem_map.mp heffect
    exact ⟨hexact.weighted w hw part hpart, hsettled.weighted w hw part hpart, hlowers⟩

def World.KeepsStocks (property : String) (w v : World) : Prop :=
  w.Stocks property → v.Stocks property

instance : Std.Refl (World.KeepsStocks property) := ⟨fun _ h => h⟩

instance : Trans (World.KeepsStocks property) (World.KeepsStocks property)
    (World.KeepsStocks property) := ⟨fun h h' hstocks => h' (h hstocks)⟩

/-- A world, if it is there, holds no floats, and a property is a stock in it. -/
structure Arena.StockedIn (property id : String) (a : Arena) : Prop where
  exact : a.ExactIn id
  world : ∀ w, a.world? id = some w → w.Stocks property

namespace Arena.StockedIn

variable {a b : Arena} {id : String}

theorem of_realm (h : a.StockedIn property id) (hb : b.realms.get? id = a.realms.get? id) :
    b.StockedIn property id :=
  have hworld : b.world? id = a.world? id := congrArg (Option.map Realm.world) hb
  ⟨h.exact.of_realm hb, fun w hw => h.world w (hworld ▸ hw)⟩

theorem delete (h : a.StockedIn property id) (k : String) : (a.delete k).StockedIn property id :=
  ⟨h.exact.delete k, fun w hw => h.world w (Arena.world?_of_delete hw)⟩

theorem along (h : a.StockedIn property id) (hexact : b.ExactIn id) (hadvances : a.Advances b)
    (halong : Arena.Along (World.KeepsStocks property) id a b) : b.StockedIn property id := by
  refine ⟨hexact, fun v hv => ?_⟩
  cases hw : a.world? id with
  | none =>
    have hsome := hadvances.realms id
    obtain ⟨realm, hrealm, -⟩ := Arena.realm_of_world? hv
    rw [hrealm, Option.map_eq_none_iff.mp hw] at hsome
    cases hsome
  | some w =>
    obtain ⟨u, hu, hkeeps⟩ := halong.own w hw
    obtain rfl := Option.some.inj (hv.symm.trans hu)
    exact hkeeps (h.world w hw)

theorem update (h : a.StockedIn property id) {f : World → World}
    (hexact : ∀ w, w.Exact → (f w).Exact) (hkeeps : ∀ w, World.KeepsStocks property w (f w)) :
    (a.update id f).StockedIn property id :=
  h.along (h.exact.update hexact) (a.advances_update id f) (.of_update fun w _ => hkeeps w)

end Arena.StockedIn

section

variable {programs : Programs} {r : Request} {a : Arena}
  (hp : ∀ p, programs r.specification = some p → p.Saves property)
  (hparameters : r.parameters.Exact) (ha : a.StockedIn property r.worldId)

include hp hparameters ha

theorem saves_of_call {c : Call} (hcall : r.call programs a.realms = .ok c) (ambient : Ambient)
    (Q : Change → Prop) : (c.scope r.parameters).vars.Exact ∧ c.event.Saves property ∧
      Stage.Stocked property Q ⟨c.realm, [], [], [], ambient⟩ := by
  obtain ⟨_, _, _, p, -, -, -, hprogram, hrealm, hentity, -, hevent⟩ := call_eq_ok hcall
  have hexact : c.realm.Exact := ha.exact c.realm hrealm
  refine ⟨Table.All.putAll hexact.world.vars hparameters, ?_, ⟨hexact, List.forall_mem_nil _⟩, ?_,
    List.forall_mem_nil _⟩
  · exact (hp p hprogram).event (List.mem_of_find?_eq_some hentity)
      (List.mem_of_find?_eq_some hevent)
  · exact ha.world _ (congrArg (Option.map Realm.world) hrealm)

theorem stocked_runEvent :
    ((runEvent programs r).run.run a).2.StockedIn property r.worldId := by
  refine ha.along (meets_runEvent (fun p h => (hp p h).exact) hparameters a ha.exact).state
    (advances_runEvent programs r a) ?_
  refine along_runEvent_of_act (fun _ _ h => h) fun c hcall ambient _ => ?_
  obtain ⟨hscope, hevent, hs⟩ := saves_of_call hp hparameters ha hcall ambient fun _ => True
  exact (stocked_callAct hscope hevent hs (fun _ _ _ _ => trivial)
    fun _ _ _ _ _ _ _ _ => trivial).world

theorem stocked_runRule : ((runRule programs r).run.run a).2.StockedIn property r.worldId :=
  ha.along (meets_runRule (fun p h => (hp p h).exact) hparameters a ha.exact).state
    (advances_runRule programs r a) (along_runRule ⟨fun _ _ _ h => h, fun _ _ h => h⟩ programs r a)

theorem takes_runEvent {o : Outcome} {b : Arena}
    (hrun : (runEvent programs r).run.run a = (.ok o, b)) {change : Change}
    (hmem : change ∈ o.changes) (hproperty : change.property? = some property) :
    ∃ c, r.call programs a.realms = .ok c ∧ c.Takes r a property change := by
  cases hcall : r.call programs a.realms with
  | error error =>
    unfold runEvent at hrun
    rw [run_get_bind, hcall] at hrun
    cases hrun
    cases hmem
  | ok c =>
    refine ⟨c, rfl, ?_⟩
    rcases run_runEvent hcall hrun with ⟨-, rfl⟩ | ⟨a', hcheck, happly⟩
    · cases hmem
    obtain ⟨hscope, hevent, hs⟩ :=
      saves_of_call hp hparameters ha hcall a'.ambient (c.Takes r a property)
    have hacted := stocked_callAct hscope hevent hs (fun effect change he htakes => ?_)
      fun i w t change hw hupTo hfires htakes => ?_
    · have hchanges : o.changes =
          ((c.act (c.scope r.parameters)).run.run (c.begun a')).2.changes := by
        rw [c.run_apply] at happly
        split at happly <;> cases happly <;> simp_all
      exact hacted.taken change (hchanges ▸ hmem) hproperty
    · exact htakes.mono fun _ _ _ _ hbegins => .effect hcheck he hbegins
    · exact htakes.mono fun _ _ _ _ hbegins => .weighted hcheck hw hupTo hfires hbegins

end

end StepWorld
