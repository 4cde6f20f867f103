import StepWorld.Proofs.Engine.Deeds
import StepWorld.Proofs.Engine.Iteration
import StepWorld.Proofs.Engine.Undisturbed

/-! The history of a simulation's world is a window on its run. It holds the last of the steps that
did not end the run, as many as are kept, each as it was when it ended. Whatever else happens to
the world in between leaves no trace in it. -/

namespace StepWorld

/-- A step that was taken: its summary, and the world that it left. -/
structure Stride where
  summary : StepSummary
  world : World

def Stride.moment (s : Stride) : Moment := s.world.moment s.summary.events s.summary.rules

/-- A world after some strides of which the first `m` did not end the run. -/
structure World.Follows (limit : Nat) (past : List Stride) (m : Nat) (w : World) : Prop where
  time : w.time = past.length
  le : m ≤ past.length
  numbered : ∀ k stride, past[k]? = some stride → stride.summary.step = k + 1 ∧
    stride.world.step = ((k + 1 : Nat) : Int) ∧ stride.world.time = ((k + 1 : Nat) : Int) ∧
    (stride.summary.terminal = false ↔ k < m)
  history : w.history = ((past.take m).drop (m - limit)).map Stride.moment
  ended : m < past.length → w.terminal = true

namespace World.Follows

variable {limit m : Nat} {past : List Stride} {v w : World}

theorem idles (h : w.Follows limit past m) (hv : w.Idles v) : v.Follows limit past m where
  time := hv.time.trans h.time
  le := h.le
  numbered := h.numbered
  history := hv.history.trans h.history
  ended hm := hv.terminal (h.ended hm)

theorem numbered_concat (h : w.Follows limit past m) {stride : Stride} {m' : Nat}
    (hstep : stride.summary.step = past.length + 1)
    (hworld : stride.world.step = ((past.length + 1 : Nat) : Int))
    (htime : stride.world.time = ((past.length + 1 : Nat) : Int))
    (hlast : stride.summary.terminal = false ↔ past.length < m')
    (hfirst : ∀ k < past.length, k < m' ↔ k < m) (k : Nat) (found : Stride)
    (hk : (past ++ [stride])[k]? = some found) : found.summary.step = k + 1 ∧
      found.world.step = ((k + 1 : Nat) : Int) ∧ found.world.time = ((k + 1 : Nat) : Int) ∧
      (found.summary.terminal = false ↔ k < m') := by
  rw [List.getElem?_append] at hk
  split at hk
  · next hlt =>
    rw [hfirst k hlt]
    exact h.numbered k found hk
  · next hge =>
    obtain ⟨hzero, rfl⟩ : k - past.length = 0 ∧ stride = found := by
      rw [List.getElem?_singleton] at hk
      split at hk
      · next hzero => exact ⟨hzero, Option.some.inj hk⟩
      · cases hk
    obtain rfl : k = past.length := by omega
    exact ⟨hstep, hworld, htime, hlast⟩

theorem concat_last (h : w.Follows limit past m) {stride : Stride}
    (hstep : stride.summary.step = past.length + 1)
    (hworld : stride.world.step = ((past.length + 1 : Nat) : Int))
    (htime : stride.world.time = ((past.length + 1 : Nat) : Int))
    (hterminal : stride.summary.terminal = true) (hover : stride.world.terminal = true)
    (hhistory : stride.world.history = w.history) :
    stride.world.Follows limit (past ++ [stride]) m := by
  refine ⟨?_, ?_, ?_, ?_, fun _ => hover⟩
  · rw [htime, List.length_append]
    rfl
  · rw [List.length_append]
    exact Nat.le_trans h.le (Nat.le_add_right _ _)
  · refine h.numbered_concat hstep hworld htime ?_ fun _ _ => Iff.rfl
    rw [hterminal]
    exact ⟨fun hf => absurd hf (by decide), fun hlt => absurd h.le (Nat.not_le.mpr hlt)⟩
  · rw [hhistory, h.history, List.take_append_of_le_length h.le]

theorem concat {limit : Int} (hlimit : 1 ≤ limit)
    (h : w.Follows limit.toNat past past.length) {stride : Stride}
    (hstep : stride.summary.step = past.length + 1)
    (hworld : stride.world.step = ((past.length + 1 : Nat) : Int))
    (htime : stride.world.time = ((past.length + 1 : Nat) : Int))
    (hterminal : stride.summary.terminal = false)
    (hhistory : stride.world.history = boundHistory limit (w.history ++ [stride.moment])) :
    stride.world.Follows limit.toNat (past ++ [stride]) (past.length + 1) := by
  refine ⟨?_, by simp, ?_, ?_, fun hlt => ?_⟩
  · rw [htime, List.length_append]
    rfl
  · refine h.numbered_concat hstep hworld htime ?_ fun k hk => ?_
    · exact ⟨fun _ => Nat.lt_succ_self _, fun _ => hterminal⟩
    · exact ⟨fun _ => hk, fun _ => Nat.lt_succ_of_lt hk⟩
  · have hwindow := boundHistory_window hlimit (past.map Stride.moment) stride.moment
    have hpast := h.history
    rw [List.take_length, List.map_drop, ← List.length_map (f := Stride.moment)] at hpast
    rw [hhistory, hpast, hwindow, List.length_map, List.take_of_length_le (by simp),
      List.map_drop, List.map_append, List.map_singleton]
  · rw [List.length_append] at hlt
    exact absurd hlt (Nat.lt_irrefl _)

/-- A step that ends in some way is remembered unless it ends the run. -/
theorem finish {limit : Int} (hlimit : 1 ≤ limit) (h : w.Follows limit.toNat past m) {u : World}
    (hu : w.advance.Idles u) {σ : StepSummary} (hstep : σ.step = past.length + 1) {stamp : Nat}
    (hv : v = (u.finishStep (past.length + 1) limit σ.events σ.rules).touch stamp)
    (hterminal : σ.terminal = v.terminal) :
    ∃ m', v.Follows limit.toNat (past ++ [⟨σ, v⟩]) m' := by
  obtain ⟨hworld, htime, hover⟩ :=
    u.finishStep_course (past.length + 1) limit σ.events σ.rules
  have hhistory := u.finishStep_history (past.length + 1) limit σ.events σ.rules
  have hwas : u.history = w.history := hu.history
  have hnow : u.time = ((past.length + 1 : Nat) : Int) := by
    rw [hu.time]
    change w.time + 1 = _
    rw [h.time]
    rfl
  rw [hnow] at htime
  rw [hwas] at hhistory
  subst hv
  cases hends : u.terminal with
  | true =>
    have hended := hover.trans hends
    rw [hends, if_pos rfl] at hhistory
    exact ⟨m, h.concat_last hstep hworld htime (hterminal.trans hended) hended hhistory⟩
  | false =>
    -- The run goes on, so that none of the strides so far has ended it.
    have hm : m = past.length := by
      refine Nat.le_antisymm h.le (Nat.not_lt.mp fun hlt => ?_)
      have hended := hu.terminal ((terminal_advance w).trans (h.ended hlt))
      rw [hends] at hended
      cases hended
    subst hm
    rw [hends, if_neg Bool.false_ne_true] at hhistory
    exact ⟨_, h.concat hlimit hstep hworld htime (hterminal.trans (hover.trans hends)) hhistory⟩

theorem entries (h : w.Follows limit past m) : w.history.length = min m limit ∧
    ∀ i entry, w.history[i]? = some entry → ∃ stride, past[m - min m limit + i]? = some stride ∧
      entry = stride.moment ∧ entry.step = ((m - min m limit + i + 1 : Nat) : Int) ∧
      entry.time = ((m - min m limit + i + 1 : Nat) : Int) := by
  have hlength : w.history.length = min m limit := by
    rw [h.history, List.length_map, List.length_drop, List.length_take, Nat.min_eq_left h.le]
    omega
  refine ⟨hlength, fun i entry hentry => ?_⟩
  have hi : i < min m limit := hlength ▸ (List.getElem?_eq_some_iff.mp hentry).1
  rw [h.history, List.getElem?_map, List.getElem?_drop, List.getElem?_take,
    if_pos (by omega), Option.map_eq_some_iff] at hentry
  obtain ⟨stride, hstride, rfl⟩ := hentry
  have hplace : m - limit + i = m - min m limit + i := by omega
  rw [hplace] at hstride
  obtain ⟨-, hstep, htime, -⟩ := h.numbered _ stride hstride
  exact ⟨stride, hstride, rfl, hstep, htime⟩

end World.Follows

namespace Engine

variable {e f g : Engine} {s : Simulation} {id : String}

/-- A simulation stands as it stood, as far as its steps go, and its world idles. -/
structure Idles (id : String) (e f : Engine) : Prop where
  settings : f.settings = e.settings
  runner : ∀ t, f.runner? id = some t →
    ∃ s, e.runner? id = some s ∧ t.id = s.id ∧ t.currentStep = s.currentStep
  world : ∀ v, f.arena.world? id = some v → ∃ w, e.arena.world? id = some w ∧ w.Idles v

/-- The steps that a simulation takes, by hand or in a turn of its loop, and what each of them comes
to. Meanwhile the simulation may idle. -/
inductive Trail (id : String) (e : Engine) : List (Except StepError Stride) → Engine → Prop
  | begin : Trail id e [] e
  | idle {trail : List (Except StepError Stride)} {f g : Engine} (h : Trail id e trail f)
      (hg : f.Idles id g) : Trail id e trail g
  | returned {trail : List (Except StepError Stride)} {f : Engine} {s : Simulation}
      {σ : StepSummary} {w : World} (h : Trail id e trail f) (hs : f.runner? id = some s)
      (hstep : (f.step s).1 = .ok σ) (hw : (f.step s).2.arena.world? id = some w) :
    Trail id e (trail ++ [.ok ⟨σ, w⟩]) (f.step s).2
  | failed {trail : List (Except StepError Stride)} {f : Engine} {s : Simulation}
      {error : StepError} (h : Trail id e trail f) (hs : f.runner? id = some s)
      (hstep : (f.step s).1 = .error error) : Trail id e (trail ++ [.error error]) (f.step s).2

/-! ### What is remembered of a trail -/

structure Strode (limit : Int) (id : String) (past : List Stride) (f : Engine) : Prop where
  kept : f.settings.historyLimit = limit
  runner : ∀ s, f.runner? id = some s → s.id = id ∧ s.currentStep = past.length
  world : ∀ w, f.arena.world? id = some w → ∃ m, w.Follows limit.toNat past m

namespace Strode

variable {limit : Int} {past : List Stride}

theorem idles (h : f.Strode limit id past) (hg : f.Idles id g) : g.Strode limit id past where
  kept := hg.settings ▸ h.kept
  runner t ht := by
    obtain ⟨s, hs, hid, hstep⟩ := hg.runner t ht
    obtain ⟨hid', hstep'⟩ := h.runner s hs
    exact ⟨hid.trans hid', hstep.trans hstep'⟩
  world v hv := by
    obtain ⟨w, hw, hidles⟩ := hg.world v hv
    obtain ⟨m, hm⟩ := h.world w hw
    exact ⟨m, hm.idles hidles⟩

theorem returned (h : f.Strode limit id past) (hlimit : 1 ≤ limit) (hname : id ≠ "")
    (hs : f.runner? id = some s) {σ : StepSummary} (hstep : (f.step s).1 = .ok σ) {v : World}
    (hv : (f.step s).2.arena.world? id = some v) :
    (f.step s).2.Strode limit id (past ++ [⟨σ, v⟩]) := by
  obtain ⟨rfl, hcount⟩ := h.runner s hs
  obtain ⟨w, u, q, arena, hw, hidles, rfl, hworld, hrealms, hstate⟩ :=
    exists_worlds_of_step World.allowsFlags_idles World.SameApart.idles hname hstep
  obtain ⟨m, hm⟩ := h.world w hw
  have hv' : (f.ranArena s q).world? s.id = some v := by
    rw [hstate] at hv
    rw [Arena.world?, ← hrealms]
    exact hv
  have hfinish : v = (u.finishStep (past.length + 1) limit q.events q.rules).touch
      q.arena.ambient.tick.1 := by
    rw [← hcount, ← h.kept]
    exact Option.some.inj (hv'.symm.trans hworld)
  have hterminal : (f.ranSummary s (w.time + 1) q).terminal = v.terminal := by
    change ((f.ranArena s q).world? s.id).any (·.terminal) = _
    rw [hv']
    rfl
  refine ⟨?_, fun t ht => ?_, fun v' hv'' => ?_⟩
  · rw [hstate]
    exact h.kept
  · rw [hstate, runner?_stepped, if_pos rfl, hs] at ht
    cases ht
    exact ⟨rfl, by simp [hcount]⟩
  · obtain rfl := Option.some.inj (hv''.symm.trans hv)
    exact hm.finish hlimit hidles (congrArg (· + 1) hcount) hfinish hterminal

end Strode

theorem Trail.strode {limit : Int} (hlimit : 1 ≤ limit) (hname : id ≠ "")
    (he : e.Strode limit id []) {trail : List (Except StepError Stride)} (h : Trail id e trail f) :
    ∀ past, trail = past.map .ok → f.Strode limit id past := by
  induction h with
  | begin =>
    intro past hpast
    obtain rfl := List.map_eq_nil_iff.mp hpast.symm
    exact he
  | idle _ hg ih => exact fun past hpast => (ih past hpast).idles hg
  | returned _ hs hstep hw ih =>
    intro past hpast
    obtain ⟨before, last, rfl, hbefore, hlast⟩ := List.map_eq_append_iff.mp hpast.symm
    obtain ⟨stride, rfl, hstride⟩ := List.map_eq_singleton_iff.mp hlast
    cases hstride
    exact (ih before hbefore.symm).returned hlimit hname hs hstep hw
  | failed _ _ _ ih =>
    intro past hpast
    obtain ⟨before, last, rfl, -, hlast⟩ := List.map_eq_append_iff.mp hpast.symm
    obtain ⟨stride, -, hstride⟩ := List.map_eq_singleton_iff.mp hlast
    cases hstride

/-! ### Whatever is done is a trail -/

namespace Idles

theorem refl (e : Engine) : e.Idles id e :=
  ⟨rfl, fun t ht => ⟨t, ht, rfl, rfl⟩, fun v hv => ⟨v, hv, .refl v⟩⟩

theorem trans (h : e.Idles id f) (h' : f.Idles id g) : e.Idles id g where
  settings := h'.settings.trans h.settings
  runner u hu := by
    obtain ⟨t, ht, hid, hstep⟩ := h'.runner u hu
    obtain ⟨s, hs, hid', hstep'⟩ := h.runner t ht
    exact ⟨s, hs, hid.trans hid', hstep.trans hstep'⟩
  world u hu := by
    obtain ⟨v, hv, hidles⟩ := h'.world u hu
    obtain ⟨w, hw, hidles'⟩ := h.world v hv
    exact ⟨w, hw, hidles'.trans hidles⟩

theorem of_same (hsettings : f.settings = e.settings) (hrunner : f.runner? id = e.runner? id)
    (hrealm : f.arena.realms.get? id = e.arena.realms.get? id) : e.Idles id f where
  settings := hsettings
  runner t ht := ⟨t, hrunner ▸ ht, rfl, rfl⟩
  world v hv := ⟨v, (congrArg (Option.map Realm.world) hrealm).symm.trans hv, .refl v⟩

theorem of_arena {arena : Arena} (h : ∀ v, arena.world? id = some v →
    ∃ w, e.arena.world? id = some w ∧ w.Idles v) : e.Idles id { e with arena } :=
  ⟨rfl, fun t ht => ⟨t, ht, rfl, rfl⟩, h⟩

theorem of_along {k : String} {arena : Arena} (h : Arena.Along World.Idles k e.arena arena)
    (hadvances : e.arena.Advances arena) : e.Idles id { e with arena } := by
  refine of_arena fun v hv => ?_
  by_cases hk : id = k
  · subst hk
    have hsome : (e.arena.world? id).isSome := by
      have hrealm := hadvances.realms id
      rw [Arena.world?, Option.isSome_map, ← hrealm]
      have hv := Option.isSome_of_eq_some hv
      rwa [Arena.world?, Option.isSome_map] at hv
    obtain ⟨w, hw⟩ := Option.isSome_iff_exists.mp hsome
    obtain ⟨u, hu, hidles⟩ := h.own w hw
    obtain rfl := Option.some.inj (hu.symm.trans hv)
    exact ⟨w, hw, hidles⟩
  · exact ⟨v, (congrArg (Option.map Realm.world) (h.others id hk)).symm.trans hv, .refl v⟩

theorem aside {P : String → String → Prop} (hf : Aside P e f) (id : String) : e.Idles id f where
  settings := hf.settings
  runner t ht := by
    obtain ⟨s, hs, hgoes⟩ := hf.runner ht
    exact ⟨s, hs, hgoes.id, hgoes.step⟩
  world v hv := by
    rw [Arena.world?, hf.realms] at hv
    exact ⟨v, hv, .refl v⟩

theorem event (e : Engine) (r : Request) : e.Idles id (e.runEvent r).2 :=
  of_along (idles_runEvent e.programs r e.arena) (advances_runEvent e.programs r e.arena)

theorem rule (e : Engine) (r : Request) : e.Idles id (e.runRule r).2 :=
  of_along (idles_runRule e.programs r e.arena) (advances_runRule e.programs r e.arena)

theorem install {n : Nat} (hname : ∃ n, id = numberedId "sim" n) (e : Engine)
    (spec : Specification) : e.Idles id (e.install (numberedId "spec" n) spec) := by
  obtain ⟨m, rfl⟩ := hname
  refine .of_same rfl rfl ?_
  rw [Engine.install, Arena.create, Table.get?_put, if_neg (specificationId_ne n m).symm]

theorem add (hname : ∃ n ≤ e.arena.ambient.issued, id = numberedId "sim" n)
    (specification : String) (program : Program) (o : SimulationOptions) :
    e.Idles id (e.addSimulation specification program o).2 :=
  have hfresh := ne_addSimulation hname specification program o
  .of_same rfl (runner?_addSimulation hfresh)
    (undisturbed_addSimulation _ specification program o hfresh).realm

end Idles

namespace Registered

theorem idles_step (h : e.Registered) {k : String} (hs : e.runner? k = some s) (hk : id ≠ k) :
    e.Idles id (e.step s).2 := by
  obtain ⟨rfl, n, -, hname⟩ := h.runner hs
  have hnonempty : s.id ≠ "" := IsSimulationId.ne ⟨n, hname⟩ (by decide)
  obtain ⟨arena, u, hstep, -, -⟩ := e.step_alters s
  refine .of_same (touches_step e s).settings ?_ (realms_step e hnonempty hk)
  rw [hstep, runner?_stepped, if_neg hk]

theorem idles_forget (h : e.Registered) (k : String) : e.Idles id (e.forget k) where
  settings := rfl
  runner t ht := ⟨t, h.runner_forget ht, rfl, rfl⟩
  world v hv := ⟨v, Arena.world?_of_delete hv, .refl v⟩

theorem idles_clear (h : e.Registered) : e.Idles id e.clear where
  settings := rfl
  runner t ht := ⟨t, h.runner_clear ht, rfl, rfl⟩
  world v hv := by cases hv

end Registered

structure Watched (id : String) (e : Engine) : Prop where
  registered : e.Registered
  named : ∃ n ≤ e.arena.ambient.issued, id = numberedId "sim" n
  quiet : ∀ n name value, .setVariable name value ∉ e.listener id n

namespace Watched

theorem persists (h : e.Watched id) (hf : f.Registered) (hp : Persists e f) : f.Watched id := by
  obtain ⟨n, hn, hname⟩ := h.named
  exact ⟨hf, ⟨n, Nat.le_trans hn hp.ambient.issued, hname⟩, hp.listener ▸ h.quiet⟩

theorem simulationId (h : e.Watched id) : ∃ n, id = numberedId "sim" n := by
  obtain ⟨n, -, hname⟩ := h.named
  exact ⟨n, hname⟩

variable {trail : List (Except StepError Stride)}

theorem trail_step (h : f.Watched id) (ht : Trail id e trail f) {k : String}
    (hs : f.runner? k = some s) : ∃ trail, Trail id e trail (f.step s).2 := by
  by_cases hk : id = k
  · subst hk
    cases hstep : (f.step s).1 with
    | error error => exact ⟨_, ht.failed hs hstep⟩
    | ok σ =>
      obtain ⟨rfl, -⟩ := h.registered.runner hs
      obtain ⟨p, w, q, lines, -, hw, -, -, -⟩ := step_eq_ok hstep
      obtain ⟨arena, u, hstate, hadvances, -⟩ := f.step_alters s
      have hworld : ((f.step s).2.arena.world? s.id).isSome := by
        have hrealm := hadvances.realms s.id
        have hsome := Option.isSome_of_eq_some hw
        rw [Arena.world?, Option.isSome_map, ← hrealm] at hsome
        rw [hstate, Arena.world?, Option.isSome_map]
        exact hsome
      obtain ⟨v, hv⟩ := Option.isSome_iff_exists.mp hworld
      exact ⟨_, ht.returned hs hstep hv⟩
  · exact ⟨_, ht.idle (h.registered.idles_step hs hk)⟩

theorem trail_stirs (h : f.Watched id) (ht : Trail id e trail f) (hg : Stirs f g) :
    ∃ trail, Trail id e trail g := by
  cases hg with
  | aside ha | refused ha => exact ⟨_, ht.idle (.aside ha id)⟩
  | step hs => exact h.trail_step ht hs
  | broken hs _ ha =>
    obtain ⟨_, ht⟩ := h.trail_step ht hs
    exact ⟨_, ht.idle (.aside ha id)⟩
  | drop => exact ⟨_, ht.idle (.of_arena fun v hv => ⟨v, Arena.world?_of_delete hv, .refl v⟩)⟩
  | @write k n name value hr =>
    have hk : id ≠ k := by
      rintro rfl
      exact h.quiet n name value hr
    refine ⟨_, ht.idle (.of_same rfl rfl ?_)⟩
    exact f.arena.others_update _ id hk
  | add hp o => exact ⟨_, ht.idle (.add h.named _ _ o)⟩
  | forget k => exact ⟨_, ht.idle (h.registered.idles_forget k)⟩

theorem trail_stirred (h : f.Watched id) (ht : Trail id e trail f) (hg : Stirred f g) :
    ∃ trail, Trail id e trail g := by
  induction hg with
  | refl => exact ⟨_, ht⟩
  | @tail m g hfirst hlast ih =>
    obtain ⟨_, ht⟩ := ih
    exact (h.persists (h.registered.stirred hfirst) (persists_stirred hfirst)).trail_stirs ht hlast

end Watched

end Engine

/-- A deed is no direct change of the clock, the history or the flags of a world. -/
def Deed.Spares (id : String) : Deed → Prop
  | .disturb f _ => ∀ (a : Arena) (v : World), (f a).world? id = some v →
    ∃ w, a.world? id = some w ∧ w.Idles v
  | _ => True

namespace Engine

variable {e f g : Engine} {id : String}

theorem Registered.idles_deals (h : e.Registered) (hname : ∃ n, id = numberedId "sim" n) {d : Deed}
    (hspares : d.Spares id) (hd : Deals e d f) : Stirred e f ∨ e.Idles id f := by
  have hticks : e.Idles id e.tick.2 := .aside (aside_tick (P := fun _ _ => False) e) id
  cases hd with
  | stirred hf => exact .inl hf
  | registered hf _ _ _ hg =>
    exact .inr (((Idles.aside hf id).trans (.install hname _ _)).trans (.aside hg id))
  | renamed => exact .inr ⟨rfl, fun t ht => ⟨t, ht, rfl, rfl⟩, fun v hv => ⟨v, hv, .refl v⟩⟩
  | rewritten _ hs =>
    obtain ⟨-, n, -, rfl⟩ := h.sourced _ _ hs
    exact .inr (hticks.trans (.install hname _ _))
  | withdrawn => exact .inr ⟨rfl, fun t ht => ⟨t, ht, rfl, rfl⟩,
      fun v hv => ⟨v, Arena.world?_of_delete hv, .refl v⟩⟩
  | event r => exact .inr (.event e r)
  | rule r => exact .inr (.rule e r)
  | cleared => exact .inr h.idles_clear
  | disturbed => exact .inr (.of_arena (hspares e.arena))

/-- Whatever is done, a simulation takes steps and idles. -/
theorem Watched.trail (h : e.Watched id) (deeds : List Deed) (hdeeds : ∀ d ∈ deeds, d.Spares id)
    {trail : List (Except StepError Stride)} {start : Engine} (ht : Trail id start trail e) :
    ∃ trail, Trail id start trail (e.afterAll deeds) := by
  induction deeds generalizing e trail with
  | nil => exact ⟨_, ht⟩
  | cons d rest ih =>
    have hdeals := deals_after e d
    have hwatched := h.persists (h.registered.deals hdeals) hdeals.persists
    have hrest : ∀ d ∈ rest, d.Spares id := fun d hd => hdeeds d (List.mem_cons_of_mem _ hd)
    rcases h.registered.idles_deals h.simulationId (hdeeds d List.mem_cons_self) hdeals with
      hstirred | hidles
    · obtain ⟨_, ht⟩ := h.trail_stirred ht hstirred
      exact ih hwatched hrest ht
    · exact ih hwatched hrest (ht.idle hidles)

/-! ### The window -/

/-- A simulation that has taken no step, in a world that remembers none. -/
structure New (id : String) (e : Engine) : Prop where
  own : ∃ s, e.simulations.get? id = some s ∧ s.currentStep = 0
  world : ∃ w, e.arena.world? id = some w ∧ w.time = 0 ∧ w.history = []

theorem New.strode (h : e.New id) (hr : e.Registered) :
    e.Strode e.settings.historyLimit id [] := by
  obtain ⟨s, hs, hstep⟩ := h.own
  obtain ⟨w, hw, htime, hhistory⟩ := h.world
  refine ⟨rfl, fun t ht => ?_, fun v hv => ⟨0, ?_⟩⟩
  · rw [runner?, hs] at ht
    cases ht
    exact ⟨(hr.filed id s hs).1, hstep⟩
  · obtain rfl := Option.some.inj (hw.symm.trans hv)
    exact ⟨htime, Nat.le_refl _, fun k stride hk => by simp at hk, by simp [hhistory],
      fun hm => by simp at hm⟩

theorem new_addSimulation (e : Engine) (specification : String) (program : Program)
    (o : SimulationOptions) : (e.addSimulation specification program o).2.New
      (e.addSimulation specification program o).1.id := by
  constructor
  · exact ⟨_, Table.get?_put_self _ _ _, rfl⟩
  · let issued := e.tick.2.issue "sim"
    have hcreate : (issued.2.arena.create issued.1 program.entities).world? issued.1 =
        some (Realm.create program.entities issued.2.arena.ambient.tick.1).world :=
      congrArg (Option.map Realm.world) (Table.get?_put_self _ _ _)
    unfold addSimulation
    dsimp only
    cases o.initialState with
    | none => exact ⟨_, hcreate, rfl, rfl⟩
    | some initial =>
      obtain ⟨v, hv, hrests⟩ := (rests_override _ initial).own _ hcreate
      exact ⟨v, hv, hrests.time, hrests.history⟩

theorem exists_created {specification : String} {spec : Specification}
    (hspec : e.specifications.get? specification = some spec) (o : SimulationOptions) :
    ∃ s, (e.after (.life (.create specification o))).simulations.get?
        (e.addSimulation specification spec.program o).1.id = some s ∧
      (e.addSimulation specification spec.program o).1.GoesOn (fun _ => False) s := by
  have hadded : (e.addSimulation specification spec.program o).2.simulations.get?
      (e.addSimulation specification spec.program o).1.id =
      some (e.addSimulation specification spec.program o).1 := Table.get?_put_self _ _ _
  have haside := aside_created (P := fun _ _ => False) hspec o
  have hkey : ((e.call (createSimulation specification o)).2.simulations.get?
      (e.addSimulation specification spec.program o).1.id).isSome := by
    rw [Table.isSome_get?_iff, haside.registered, ← Table.isSome_get?_iff, hadded]
    rfl
  obtain ⟨s, hs⟩ := Option.isSome_iff_exists.mp hkey
  obtain ⟨before, hbefore, hgoes⟩ := haside.simulations _ s hs
  obtain rfl := Option.some.inj (hadded.symm.trans hbefore)
  rw [after_create]
  exact ⟨s, hs, hgoes⟩

theorem new_create {specification : String} {spec : Specification}
    (hspec : e.specifications.get? specification = some spec) (o : SimulationOptions) :
    (e.after (.life (.create specification o))).New
      (e.addSimulation specification spec.program o).1.id := by
  obtain ⟨-, w, hw, htime, hhistory⟩ := e.new_addSimulation specification spec.program o
  obtain ⟨s, hs, hgoes⟩ := exists_created hspec o
  refine ⟨⟨s, hs, hgoes.step⟩, w, ?_, htime, hhistory⟩
  rw [after_create, Arena.world?, (aside_created (P := fun _ _ => False) hspec o).realms]
  exact hw

/-- History is a window on the run. It belongs to every simulation from its creation on. Whatever is
done afterwards, short of changing the clock, the history or the flags of its world directly, is a
trail of its steps. If all of these return, then the ones that do not end the run are the first
ones, and the history holds the last of them, as many as are kept: each with its number, its time,
the events and rules of its summary, and the variables and instances at its end. -/
theorem history_is_window (h : e.Reachable) (hlimit : 1 ≤ e.settings.historyLimit) :
    (∀ specification o, (e.specifications.get? specification).isSome →
      ∃ id, e.simulations.get? id = none ∧ (e.after (.life (.create specification o))).New id) ∧
    ∀ id, e.New id →
      (∀ deeds, (∀ d ∈ deeds, d.Spares id) →
        (∀ n name value, .setVariable name value ∉ e.listener id n) →
        ∃ trail, Trail id e trail (e.afterAll deeds)) ∧
      ∀ (past : List Stride) f v, Trail id e (past.map .ok) f → f.arena.world? id = some v →
        ∃ m ≤ past.length,
          (∀ k stride, past[k]? = some stride →
            stride.summary.step = k + 1 ∧ (stride.summary.terminal = false ↔ k < m)) ∧
          v.history.length = min m e.settings.historyLimit.toNat ∧
          ∀ i entry, v.history[i]? = some entry → ∃ stride,
            past[m - min m e.settings.historyLimit.toNat + i]? = some stride ∧
            entry = stride.world.moment stride.summary.events stride.summary.rules ∧
            entry.step = ((m - min m e.settings.historyLimit.toNat + i + 1 : Nat) : Int) ∧
            entry.time = ((m - min m e.settings.historyLimit.toNat + i + 1 : Nat) : Int) := by
  have hr := h.registered
  refine ⟨fun specification o hspec => ?_, fun id hnew => ?_⟩
  · obtain ⟨spec, hspec⟩ := Option.isSome_iff_exists.mp hspec
    exact ⟨_, (hr.fresh (Nat.lt_succ_self _)).1, new_create hspec o⟩
  · obtain ⟨s, hs, -⟩ := hnew.own
    obtain ⟨-, hname⟩ := hr.filed id s hs
    refine ⟨fun deeds hdeeds hquiet => ?_, fun past f v ht hv => ?_⟩
    · exact Watched.trail ⟨hr, hname, hquiet⟩ deeds hdeeds .begin
    · have hnonempty : id ≠ "" := by
        obtain ⟨n, -, hname⟩ := hname
        exact IsSimulationId.ne ⟨n, hname⟩ (by decide)
      have hstrode := ht.strode hlimit hnonempty (hnew.strode hr) past rfl
      obtain ⟨m, hm⟩ := hstrode.world v hv
      obtain ⟨hlength, hentries⟩ := hm.entries
      refine ⟨m, hm.le, fun k stride hk => ?_, hlength, hentries⟩
      obtain ⟨hstep, -, -, hterminal⟩ := hm.numbered k stride hk
      exact ⟨hstep, hterminal⟩

theorem Trail.steps {trail : List (Except StepError Stride)} (ht : Trail id e trail f) (n : Nat)
    (hreturn : ∀ k < n, ((f.afterSteps id k).nextStep? id).map (·.isOk) = some true ∧
      ((f.afterSteps id (k + 1)).arena.world? id).isSome) :
    ∃ past : List Stride, past.length = n ∧
      Trail id e (trail ++ past.map .ok) (f.afterSteps id n) := by
  induction n with
  | zero => exact ⟨[], rfl, (List.append_nil trail).symm ▸ ht⟩
  | succ n ih =>
    obtain ⟨past, hlength, ht⟩ := ih fun k hk => hreturn k (Nat.lt_succ_of_lt hk)
    obtain ⟨hok, hworld⟩ := hreturn n (Nat.lt_succ_self n)
    cases hs : (f.afterSteps id n).simulations.get? id with
    | none =>
      rw [nextStep?, hs] at hok
      cases hok
    | some s =>
      have hafter : f.afterSteps id (n + 1) = ((f.afterSteps id n).step s).2 := by
        rw [afterSteps, hs]
        rfl
      rw [nextStep?, hs] at hok
      cases hstep : ((f.afterSteps id n).step s).1 with
      | error error => simp [hstep, Except.isOk, Except.toBool] at hok
      | ok σ =>
        obtain ⟨w, hw⟩ := Option.isSome_iff_exists.mp hworld
        rw [hafter] at hw ⊢
        have hs' : (f.afterSteps id n).runner? id = some s := runner?_own hs
        refine ⟨past ++ [⟨σ, w⟩], by simp [hlength], ?_⟩
        simpa using ht.returned hs' hstep hw

def fading : String :=
  "Entity Tally { State { n: int } Event count { effect: Self.n = Self.n + 1 } }
    Rule Stop { effect: time >= 3 -> GameOver }"

/-- A simulation of a program that counts and ends after three steps. One moment is kept. -/
@[irreducible] def windowed : Engine :=
  (create { Settings.default with historyLimit := 1 } [] (.cyclic [0] 0) (.memory ⟨[], [], []⟩)
    fun _ _ => []).afterAll
      [.register fading none none,
        .life (.create "spec_000000000001" ⟨none, none, none, none, none⟩)]

def byHand : Request :=
  ⟨"spec_000000000001", some "sim_000000000002", some "Tally", some "Tally_0", some "count", none, []⟩

theorem runs_windowed : windowed.settings.historyLimit = 1 ∧
    (windowed.simulations.get? "sim_000000000002").map (·.currentStep) = some 0 ∧
    (windowed.arena.world? "sim_000000000002").map (fun w => (w.time, w.history.isEmpty)) =
      some (0, true) ∧
    (∀ k < 1, ((windowed.afterSteps "sim_000000000002" k).nextStep? "sim_000000000002").map
        (·.isOk) = some true ∧
      ((windowed.afterSteps "sim_000000000002" (k + 1)).arena.world?
        "sim_000000000002").isSome) ∧
    let f := ((windowed.afterSteps "sim_000000000002" 1).runEvent byHand).2
    (∀ k < 2, ((f.afterSteps "sim_000000000002" k).nextStep? "sim_000000000002").map (·.isOk) =
        some true ∧
      ((f.afterSteps "sim_000000000002" (k + 1)).arena.world? "sim_000000000002").isSome) ∧
    ((f.afterSteps "sim_000000000002" 2).arena.world? "sim_000000000002").map
      (·.history.map (·.time)) = some [2] := by decide +kernel

theorem new_windowed : windowed.New "sim_000000000002" := by
  obtain ⟨-, hown, hworld, -⟩ := runs_windowed
  obtain ⟨s, hs, hstep⟩ := Option.map_eq_some_iff.mp hown
  obtain ⟨w, hw, hcourse⟩ := Option.map_eq_some_iff.mp hworld
  obtain ⟨htime, hempty⟩ := Prod.mk.inj hcourse
  exact ⟨⟨s, hs, hstep⟩, w, hw, htime, List.isEmpty_iff.mp hempty⟩

/-- Three steps, with an event by hand after the first. The third ends the run; the history holds the
second. -/
theorem history_is_window_fading :
    ∃ (past : List Stride) (f : Engine) (v : World), windowed.Reachable ∧
      windowed.New "sim_000000000002" ∧
      Trail "sim_000000000002" windowed (past.map .ok) f ∧ past.length = 3 ∧
      f.arena.world? "sim_000000000002" = some v ∧ v.history.map (·.time) = [2] ∧
      ∃ m ≤ past.length, v.history.length = min m 1 ∧
        ∀ k stride, past[k]? = some stride →
          stride.summary.step = k + 1 ∧ (stride.summary.terminal = false ↔ k < m) := by
  have hreachable : windowed.Reachable := by
    unfold windowed
    exact ⟨_, _, _, _, _, _, rfl⟩
  obtain ⟨hlimit, -, -, hearly, hlate, hhistory⟩ := runs_windowed
  obtain ⟨first, hfirst, htrail⟩ := Trail.begin.steps 1 hearly
  have hidle := htrail.idle (Idles.event _ byHand)
  obtain ⟨second, hsecond, htrail⟩ := hidle.steps 2 hlate
  obtain ⟨v, hv, htimes⟩ := Option.map_eq_some_iff.mp hhistory
  rw [List.nil_append, ← List.map_append] at htrail
  obtain ⟨m, hm, hnumbered, hlength, -⟩ :=
    ((history_is_window hreachable (Int.le_of_eq hlimit.symm)).2 _ new_windowed).2 _ _ v htrail hv
  rw [hlimit] at hlength
  refine ⟨first ++ second, _, v, hreachable, new_windowed, htrail, ?_, hv, htimes, m, hm, hlength,
    hnumbered⟩
  rw [List.length_append, hfirst, hsecond]

end Engine

end StepWorld
