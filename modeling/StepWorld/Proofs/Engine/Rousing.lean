import Mathlib.Data.List.Perm.Subperm
import StepWorld.Proofs.Engine.Course

/-! How the loop of one simulation is changed from outside, and roused from its sleep. All other
loops stay. -/

namespace StepWorld

namespace Loop

variable (l : Loop)

@[simp] theorem cancel_simulation : l.cancel.simulation = l.simulation := by
  unfold cancel
  split <;> rfl

@[simp] theorem cancel_cancelled : l.cancel.cancelled = true := by
  unfold cancel
  split <;> rfl

@[simp] theorem cancel_stopping : l.cancel.stopping = l.stopping := by
  unfold cancel
  split <;> rfl

variable {l}

theorem cancel_delay (h : l.phase.delay ≤ 3) : l.cancel.phase.delay ≤ 3 := by
  unfold cancel
  split
  · exact (by decide : LoopPhase.delay (.roused 2) ≤ 3)
  · exact h

end Loop

namespace Schedule

variable {s : Schedule} {id : String} {l : Loop}

theorem rouse_cases (s : Schedule) (id : String) :
    s.rouse id = s ∨ ∃ due l, (due, l) ∈ s.sleepers ∧ l.simulation = id ∧
      (s.rouse id).queue = s.queue ++ [l.rouse] ∧
      (s.rouse id).sleepers = s.sleepers.filter (·.2.simulation != id) := by
  unfold rouse
  cases hf : s.sleepers.find? (·.2.simulation == id) with
  | none => exact .inl rfl
  | some sleeper =>
    obtain ⟨due, l⟩ := sleeper
    have hid := List.find?_some hf
    simp only [beq_iff_eq] at hid
    exact .inr ⟨due, l, List.mem_of_find?_eq_some hf, hid, rfl, rfl⟩

theorem loops_rouse (h : l ∈ (s.rouse id).loops) : ∃ m ∈ s.loops, m.core = l.core := by
  rcases s.rouse_cases id with hs | ⟨due, k, hk, hid, hqueue, hsleepers⟩
  · exact ⟨l, hs ▸ h, rfl⟩
  · simp only [loops, hqueue, hsleepers, List.mem_append, List.mem_map, List.mem_filter,
      List.mem_singleton] at h ⊢
    rcases h with (hl | rfl) | ⟨k', ⟨hk', -⟩, rfl⟩
    · exact ⟨l, .inl hl, rfl⟩
    · exact ⟨k, .inr ⟨(due, k), hk, rfl⟩, rfl⟩
    · exact ⟨k'.2, .inr ⟨k', hk', rfl⟩, rfl⟩

theorem brief_rouse (h : ∀ l ∈ s.queue, l.phase.delay ≤ 3) :
    ∀ l ∈ (s.rouse id).queue, l.phase.delay ≤ 3 := by
  intro l hl
  rcases s.rouse_cases id with hs | ⟨due, k, hk, hid, hqueue, hsleepers⟩
  · exact h l (hs ▸ hl)
  · rw [hqueue, List.mem_append, List.mem_singleton] at hl
    rcases hl with hl | rfl
    · exact h l hl
    · exact (by decide : LoopPhase.delay (.roused 2) ≤ 3)

theorem single_rouse (h : (s.loops.map (·.simulation)).Nodup) :
    ((s.rouse id).loops.map (·.simulation)).Nodup := by
  rcases s.rouse_cases id with hs | ⟨due, k, hk, hid, hqueue, hsleepers⟩
  · rw [hs]
    exact h
  · have hfirst : [(due, k)].Sublist (s.sleepers.filter (·.2.simulation == id)) :=
      List.singleton_sublist.mpr (List.mem_filter.mpr ⟨hk, by simpa using hid⟩)
    have hsub : ((due, k) :: s.sleepers.filter (·.2.simulation != id)).Subperm s.sleepers :=
      (hfirst.append_right _).subperm.trans
        (List.filter_append_perm (·.2.simulation == id) s.sleepers).subperm
    have hnames : ((s.rouse id).loops.map (·.simulation)).Subperm
        (s.loops.map (·.simulation)) := by
      simp only [loops, hqueue, hsleepers, List.map_append, List.map_map, List.append_assoc]
      obtain ⟨sleepers, hperm, hsublist⟩ := hsub
      exact (List.subperm_append_left _).mpr
        ⟨sleepers.map fun sleeper => sleeper.2.simulation, hperm.map _, hsublist.map _⟩
    obtain ⟨names, hperm, hsublist⟩ := hnames
    exact hperm.nodup_iff.mp (h.sublist hsublist)

structure Edited (id : String) (f : Loop → Loop) (s t : Schedule) : Prop where
  others : ∀ l ∈ t.loops, l.simulation ≠ id → ∃ m ∈ s.loops, m.core = l.core
  own : ∀ l ∈ t.loops, l.simulation = id → ∃ m ∈ s.loops, m.simulation = id ∧ (f m).core = l.core
  single : (t.loops.map (·.simulation)).Nodup
  brief : ∀ l ∈ t.queue, l.phase.delay ≤ 3

theorem edited_rouse {f : Loop → Loop} (hf : ∀ l, (f l).simulation = l.simulation)
    (hd : ∀ l, l.phase.delay ≤ 3 → (f l).phase.delay ≤ 3)
    (hs : (s.loops.map (·.simulation)).Nodup) (hb : ∀ l ∈ s.queue, l.phase.delay ≤ 3) :
    Edited id f s ((s.alter id f).rouse id) := by
  have hloops : (s.alter id f).loops = s.loops.map fun l => if l.simulation = id then f l else l := by
    simp [loops, alter]
  have hname (l : Loop) : (if l.simulation = id then f l else l).simulation = l.simulation := by
    split
    · exact hf l
    · rfl
  have horigin {l : Loop} (hl : l ∈ ((s.alter id f).rouse id).loops) :
      ∃ m ∈ s.loops, m.simulation = l.simulation ∧
        (if m.simulation = id then f m else m).core = l.core := by
    obtain ⟨m, hm, hcore⟩ := loops_rouse hl
    rw [hloops] at hm
    obtain ⟨m', hm', rfl⟩ := List.mem_map.mp hm
    exact ⟨m', hm', (hname m').symm.trans (congrArg Prod.fst hcore), hcore⟩
  refine ⟨fun l hl hid => ?_, fun l hl hid => ?_, single_rouse ?_, brief_rouse ?_⟩
  · obtain ⟨m, hm, hsim, hcore⟩ := horigin hl
    rw [if_neg (hsim ▸ hid)] at hcore
    exact ⟨m, hm, hcore⟩
  · obtain ⟨m, hm, hsim, hcore⟩ := horigin hl
    rw [if_pos (hsim.trans hid)] at hcore
    exact ⟨m, hm, hsim.trans hid, hcore⟩
  · rw [hloops, List.map_map]
    exact (List.map_congr_left fun l _ => hname l) ▸ hs
  · intro l hl
    obtain ⟨m, hm, rfl⟩ := List.mem_map.mp hl
    have := hb m hm
    split
    · exact hd m this
    · exact this

theorem edited_cancel (id : String) (hs : (s.loops.map (·.simulation)).Nodup)
    (hb : ∀ l ∈ s.queue, l.phase.delay ≤ 3) : Edited id Loop.cancel s (s.cancel id) :=
  edited_rouse Loop.cancel_simulation (fun _ => Loop.cancel_delay) hs hb

theorem edited_stop (id : String) (hs : (s.loops.map (·.simulation)).Nodup)
    (hb : ∀ l ∈ s.queue, l.phase.delay ≤ 3) :
    Edited id (fun l => { l with stopping := true }.cancel) s
      ((s.alter id fun l => { l with stopping := true }).cancel id) := by
  have hboth : (s.alter id fun l => { l with stopping := true }).alter id Loop.cancel =
      s.alter id fun l => { l with stopping := true }.cancel := by
    simp only [alter, List.map_map]
    congr 1
    · refine List.map_congr_left fun l _ => ?_
      by_cases hl : l.simulation = id <;> simp [hl]
    · refine List.map_congr_left fun l _ => ?_
      by_cases hl : l.2.simulation = id <;> simp [hl]
  unfold cancel
  rw [hboth]
  exact edited_rouse (fun l => Loop.cancel_simulation _) (fun l hl => Loop.cancel_delay hl) hs hb

end Schedule

end StepWorld
