import StepWorld.Proofs.Engine.Deeds

/-! Engines under the calls of a driver. After any of them the loops are in order, nobody stands
twice among the active ones or among those that have had a loop, and the archive is tidy. -/

namespace StepWorld

def Deed.isUnseen : Deed → Bool
  | .register .. | .revise .. | .withdraw _ | .lock _ | .runEvent _ | .runRule _ | .disturb .. => true
  | _ => false

namespace Engine

variable {e f : Engine} {d : Deed} {s : Simulation}

structure Kempt (e : Engine) : Prop where
  active : e.active.Nodup
  started : e.started.Nodup
  archive : e.archive.IsTidy

namespace Kempt

theorem congr (h : e.Kempt) (ha : f.active = e.active) (hs : f.started = e.started)
    (hr : f.archive = e.archive) : f.Kempt :=
  ⟨ha ▸ h.active, hs ▸ h.started, hr ▸ h.archive⟩

theorem aside {P : String → String → Prop} (h : e.Kempt) (hf : Aside P e f) : f.Kempt :=
  ⟨hf.active h.active, hf.started h.started, hf.archive h.archive⟩

theorem step (h : e.Kempt) (s : Simulation) : (e.step s).2.Kempt := by
  obtain ⟨arena, u, hstep, -⟩ := e.step_alters s
  rw [hstep]
  exact h.congr rfl rfl rfl

theorem forget (h : e.Kempt) (id : String) : (e.forget id).Kempt :=
  ⟨h.active.erase id, h.started.erase id, h.archive⟩

theorem install (h : e.Kempt) (id : String) (spec : Specification) : (e.install id spec).Kempt :=
  h.congr rfl rfl rfl

theorem stirs (h : e.Kempt) (hf : Stirs e f) : f.Kempt := by
  cases hf with
  | aside ha | refused ha => exact h.aside ha
  | step => exact h.step _
  | broken _ _ ha => exact (h.step _).aside ha
  | drop | write | add => exact h.congr rfl rfl rfl
  | forget => exact h.forget _

theorem stirred (h : e.Kempt) (hf : Stirred e f) : f.Kempt := by
  induction hf with
  | refl => exact h
  | tail _ hstep ih => exact ih.stirs hstep

theorem after (h : e.Kempt) (d : Deed) : (e.after d).Kempt := by
  have hdeals := deals_after e d
  generalize e.after d = f at hdeals
  cases hdeals with
  | stirred hf => exact h.stirred hf
  | registered ha _ _ _ hg => exact ((h.aside ha).install _ _).aside hg
  | renamed | rewritten | withdrawn | event | rule | disturbed => exact h.congr rfl rfl rfl
  | cleared => exact ⟨List.nodup_nil, List.nodup_nil, h.archive⟩

end Kempt

/-! ### Order -/

theorem Orderly.unseen (h : e.Orderly) (specifications : Table Specification) (arena : Arena)
    (locks : List String) (hissued : e.arena.ambient.issued ≤ arena.ambient.issued) :
    { e with specifications, arena, schedule := { e.schedule with locks } }.Orderly where
  filed := h.filed
  attached := h.attached
  single := h.single
  driven := h.driven
  brief := h.brief
  known p hp := by
    obtain ⟨n, hn, hname⟩ := h.known p hp
    exact ⟨n, Nat.le_trans hn hissued, hname⟩
  noted := h.noted

theorem Orderly.stopAll (h : e.Orderly) (ids : List String) :
    (e.call (stopAll ids)).2.Orderly ∧ Extends e (e.call (stopAll ids)).2 := by
  induction ids generalizing e with
  | nil => exact ⟨h, .refl e⟩
  | cons id rest ih =>
    unfold Engine.stopAll
    rw [call_bind, call_get]
    dsimp only
    cases e.isLive id with
    | false => exact ih h
    | true =>
      have hstop := h.follow (h.course_stop (k := id))
      have hextends := h.extends (h.course_stop (k := id))
      simp only [if_true]
      rw [call_bind]
      generalize e.call (stop id) = result at hstop hextends
      obtain ⟨result, f⟩ := result
      cases result with
      | ok => exact ⟨(ih hstop).1, hextends.trans (ih hstop).2⟩
      | error error => exact ⟨hstop, hextends⟩

theorem after_unseen (e : Engine) (h : d.isUnseen = true) : ∃ specifications arena locks,
    e.after d = { e with specifications, arena, schedule := { e.schedule with locks } } := by
  cases d with
  | register source name description =>
    simp only [Engine.after, Engine.register]
    split
    · split <;> exact ⟨_, _, _, rfl⟩
    · exact ⟨_, _, _, rfl⟩
  | revise id source name description =>
    simp only [Engine.after, Engine.revise]
    cases e.specifications.get? id with
    | none => exact ⟨_, _, _, rfl⟩
    | some spec =>
      cases source with
      | none => exact ⟨_, _, _, rfl⟩
      | some source =>
        dsimp only
        cases registrable source <;> exact ⟨_, _, _, rfl⟩
  | withdraw id =>
    simp only [Engine.after, deleteSpecification?]
    cases e.specifications.get? id <;> exact ⟨_, _, _, rfl⟩
  | lock | runEvent | runRule | disturb => exact ⟨_, _, _, rfl⟩
  | _ => cases h

theorem Orderly.after (h : e.Orderly) (hd : d ≠ .clear) :
    (e.after d).Orderly ∧ Extends e (e.after d) := by
  cases hunseen : d.isUnseen with
  | true =>
    have hissued := (deals_after e d).persists.ambient.issued
    obtain ⟨specifications, arena, locks, hafter⟩ := e.after_unseen hunseen
    rw [hafter] at hissued ⊢
    exact ⟨h.unseen specifications arena locks hissued, { Extends.refl e with }⟩
  | false =>
    cases d with
    | life c => exact ⟨h.follow (h.course c), h.extends (h.course c)⟩
    | step id =>
      cases hs : e.simulations.get? id with
      | none =>
        simp only [Engine.after, hs]
        exact ⟨h, .refl e⟩
      | some s =>
        simp only [Engine.after, hs]
        exact ⟨h.step hs, (touches_step e s).extends⟩
    | sleep seconds =>
      have hpasses := passes_sleepFor seconds e
      exact ⟨h.passes hpasses, h.extends_passes hpasses⟩
    | close => exact h.stopAll e.started
    | clear => exact absurd rfl hd
    | _ => cases hunseen

def Unfailed (e : Engine) : Prop := e.refusals = [] → ∀ k, e.failures.get? k = none

theorem Unfailed.extends (h : e.Unfailed) (hf : Extends e f) : f.Unfailed :=
  fun hr k => hf.failures hr k (h (hf.none hr) k)

/-- An engine to which the calls of a driver lead from its creation. What drops everything at once
is no such call, and the archive is tidy to begin with. -/
def Driven (e : Engine) : Prop :=
  ∃ settings environment chance archive listener deeds, archive.IsTidy ∧
    (∀ d ∈ deeds, d ≠ .clear) ∧
    e = (create settings environment chance archive listener).afterAll deeds

namespace Driven

theorem reachable (h : e.Driven) : e.Reachable := by
  obtain ⟨settings, environment, chance, archive, listener, deeds, -, -, he⟩ := h
  exact ⟨settings, environment, chance, archive, listener, deeds, he⟩

theorem ordered (h : e.Driven) : e.Orderly ∧ e.Kempt ∧ e.Unfailed := by
  obtain ⟨settings, environment, chance, archive, listener, deeds, htidy, hcalls, rfl⟩ := h
  have hunused : (create settings environment chance archive listener).Unused :=
    ⟨rfl, rfl, rfl, rfl, rfl, rfl, rfl⟩
  have hkempt : (create settings environment chance archive listener).Kempt :=
    ⟨List.nodup_nil, List.nodup_nil, htidy⟩
  have hunfailed : (create settings environment chance archive listener).Unfailed := fun _ _ => rfl
  have horderly := hunused.regular.orderly
  generalize create settings environment chance archive listener = e at hkempt hunfailed horderly
  induction deeds generalizing e with
  | nil => exact ⟨horderly, hkempt, hunfailed⟩
  | cons d rest ih =>
    obtain ⟨hafter, hextends⟩ := horderly.after (hcalls d List.mem_cons_self)
    exact ih (fun d hd => hcalls d (List.mem_cons_of_mem _ hd)) (e.after d) (hkempt.after d)
      (hunfailed.extends hextends) hafter

end Driven

end Engine

end StepWorld
