import StepWorld.Proofs.World.Variables

/-! What events and rules leave of a world's course. Its clock and its history stand still, and a
run that is over stays over, since flags that end a run are only ever raised. -/

namespace StepWorld

namespace World

variable {u v w : World}

theorem terminal_raised (w : World) {flag : String} (h : flag ∈ terminalFlags) :
    (w.setVariable flag (.bool true)).terminal = true := by
  refine List.any_eq_true.mpr ⟨flag, h, ?_⟩
  simp [flagged, setVariable, Table.get?_put]

theorem terminal_setVariable (w : World) {name : String} (h : name ∉ terminalFlags)
    (value : Value) : (w.setVariable name value).terminal = w.terminal := by
  have hflag : ∀ flag ∈ terminalFlags, (w.setVariable name value).flagged flag = w.flagged flag := by
    intro flag hflag
    have hne : flag ≠ name := fun he => h (he ▸ hflag)
    unfold flagged setVariable
    rw [Table.get?_put, if_neg hne]
  rw [Bool.eq_iff_iff, terminal, terminal, List.any_eq_true, List.any_eq_true]
  exact exists_congr fun flag => and_congr_right fun hmem => by rw [hflag flag hmem]

/-- The clock and the history of a world stand still. -/
structure Rests (w v : World) : Prop where
  time : v.time = w.time
  history : v.history = w.history

namespace Rests

instance : Std.Refl Rests := ⟨fun _ => ⟨rfl, rfl⟩⟩

instance : Trans Rests Rests Rests :=
  ⟨fun h h' => ⟨h'.time.trans h.time, h'.history.trans h.history⟩⟩

end Rests

/-- The clock and the history of a world stand still, and its run does not go on if it is over. -/
structure Idles (w v : World) : Prop extends w.Rests v where
  terminal : w.terminal = true → v.terminal = true

namespace Idles

theorem refl (w : World) : w.Idles w := ⟨Std.Refl.refl w, fun h => h⟩

theorem trans (h : u.Idles v) (h' : v.Idles w) : u.Idles w :=
  ⟨Trans.trans h.toRests h'.toRests, fun hu => h'.terminal (h.terminal hu)⟩

instance : Std.Refl Idles := ⟨refl⟩

instance : Trans Idles Idles Idles := ⟨trans⟩

end Idles

theorem allowsFlags_idles : AllowsFlags Idles where
  raised w _ h := ⟨⟨rfl, rfl⟩, fun _ => w.terminal_raised h⟩
  stamped _ _ := ⟨⟨rfl, rfl⟩, fun h => h⟩

theorem SameApart.idles (h : w.SameApart v) : w.Idles v := by
  obtain ⟨entities, stamp, rfl⟩ := h
  exact ⟨⟨rfl, rfl⟩, fun h => h⟩

theorem terminal_advance (w : World) : w.advance.terminal = w.terminal :=
  terminal_setVariable { w with time := w.time + 1 } (by decide) _

section

variable (w : World) (step : Nat) (limit : Int) (events rules : List String)

theorem finishStep_course : (w.finishStep step limit events rules).step = step ∧
    (w.finishStep step limit events rules).time = w.time ∧
    (w.finishStep step limit events rules).terminal = w.terminal := by
  have hterminal := terminal_setVariable { w with step := (step : Int) }
    (by decide : "step" ∉ terminalFlags) (.int step)
  unfold finishStep
  dsimp only
  split <;> exact ⟨rfl, rfl, hterminal⟩

theorem finishStep_history : (w.finishStep step limit events rules).history =
    if w.terminal then w.history else
      boundHistory limit (w.history ++ [(w.finishStep step limit events rules).moment events rules]) := by
  have hterminal := terminal_setVariable { w with step := (step : Int) }
    (by decide : "step" ∉ terminalFlags) (.int step)
  change ({ w with step := (step : Int) }.setVariable "step" (.int step)).terminal = w.terminal
    at hterminal
  rw [← hterminal]
  unfold finishStep
  dsimp only
  split <;> rfl

end

theorem boundHistory_window {limit : Int} (hlimit : 1 ≤ limit) (moments : List Moment)
    (moment : Moment) :
    boundHistory limit (moments.drop (moments.length - limit.toNat) ++ [moment]) =
      (moments ++ [moment]).drop (moments.length + 1 - limit.toNat) := by
  obtain ⟨bound, rfl⟩ : ∃ bound : Nat, limit = (bound : Int) := ⟨limit.toNat, by omega⟩
  have hbound : 1 ≤ bound := by omega
  unfold boundHistory
  simp only [Int.toNat_natCast, List.length_append, List.length_drop, List.length_singleton]
  split
  · next hle =>
    rcases Nat.lt_or_ge moments.length bound with hlt | hge
    · have hall : moments.length - bound = 0 := by omega
      have hall' : moments.length + 1 - bound = 0 := by omega
      rw [hall, hall', List.drop_zero, List.drop_zero]
    · omega
  · next hlong =>
    have hge : bound ≤ moments.length := by omega
    have hone : moments.length - (moments.length - bound) + 1 - bound = 1 := by omega
    have hsucc : moments.length + 1 - bound = (moments.length - bound) + 1 := by omega
    rw [if_pos (by omega), hone, hsucc, List.drop_append_of_le_length (by simp; omega),
      List.drop_drop, List.drop_append_of_le_length (by omega)]

end World

theorem idles_runEvent (programs : Programs) (r : Request) :
    Moves (Arena.Along World.Idles r.worldId) (runEvent programs r) :=
  fun a => (kept_runEvent programs r a).mono fun _ _ => World.SameApart.idles

theorem idles_runRule (programs : Programs) (r : Request) :
    Moves (Arena.Along World.Idles r.worldId) (runRule programs r) :=
  along_runRule World.allowsFlags_idles programs r

end StepWorld
