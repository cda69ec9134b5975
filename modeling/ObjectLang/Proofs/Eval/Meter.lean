import ObjectLang.Proofs.Eval.Entry

/-!
# Meters of a world

What the two steps that charge a meter do to the meters of a world.
-/

namespace ObjectLang

namespace World

theorem meter_modifyMeter (w : World) (m m' : MeterId) (g : Meter → Meter) :
    (w.modifyMeter m g).meter m' =
      if m = m' ∧ m < w.meters.size then g (w.meter m') else w.meter m' := by
  simp only [meter, modifyMeter, Array.getD_eq_getD_getElem?, Array.getElem?_modify]
  by_cases hm : m = m'
  · subst hm
    by_cases hs : m < w.meters.size
    · simp [hs]
    · simp [hs]
  · simp [hm]

/-- A change that keeps a field of meters keeps it in every meter. -/
theorem meter_modifyMeter_field {β : Type} (field : Meter → β) (w : World) (m m' : MeterId)
    {g : Meter → Meter} (hg : ∀ μ, field (g μ) = field μ) :
    field ((w.modifyMeter m g).meter m') = field (w.meter m') := by
  rw [meter_modifyMeter]
  split
  · exact hg _
  · rfl

@[simp] theorem store_modifyMeter (w : World) (m : MeterId) (g : Meter → Meter) :
    (w.modifyMeter m g).store = w.store := rfl

@[simp] theorem functions_modifyMeter (w : World) (m : MeterId) (g : Meter → Meter) :
    (w.modifyMeter m g).functions = w.functions := rfl

@[simp] theorem printed_modifyMeter (w : World) (m : MeterId) (g : Meter → Meter) :
    (w.modifyMeter m g).printed = w.printed := rfl

@[simp] theorem logged_modifyMeter (w : World) (m : MeterId) (g : Meter → Meter) :
    (w.modifyMeter m g).logged = w.logged := rfl

/-- The world after one more step was charged to a meter. -/
def charge (w : World) (m : MeterId) : World :=
  w.modifyMeter m fun μ => { μ with gas := μ.gas + 1 }

/-- At least `n` more steps may be charged to a meter. -/
def Room (w : World) (m : MeterId) (n : Nat) : Prop :=
  m < w.meters.size ∧ (w.meter m).gas + n ≤ (w.meter m).limits.gas

theorem meter_charge {w : World} {m : MeterId} (hm : m < w.meters.size) :
    (w.charge m).meter m = { w.meter m with gas := (w.meter m).gas + 1 } := by
  rw [charge, meter_modifyMeter, if_pos ⟨rfl, hm⟩]

theorem Room.charge {w : World} {m : MeterId} {n : Nat} (h : w.Room m (n + 1)) :
    (w.charge m).Room m n := by
  obtain ⟨hm, hgas⟩ := h
  have hsize : (w.charge m).meters.size = w.meters.size := Array.size_modify
  refine ⟨hsize ▸ hm, ?_⟩
  rw [meter_charge hm]
  dsimp only
  omega

/-- The world in which a call has been entered. -/
def enter (w : World) (m : MeterId) : World :=
  w.modifyMeter m fun μ => { μ with depth := μ.depth + 1 }

/-- The world in which a call has ended. -/
def leave (w : World) (m : MeterId) : World :=
  w.modifyMeter m fun μ => { μ with depth := μ.depth - 1 }

end World

namespace Eval

theorem tick_run (m : MeterId) (w : World) :
    tick m w =
      let μ := (w.charge m).meter m
      if μ.limits.gas < μ.gas then .error (.error (.gasExhausted μ.limits.gas)) (w.charge m)
      else .ok () (w.charge m) := by
  dsimp only
  split
  · next h => exact congrFun (if_pos h) (w.charge m)
  · next h => exact congrFun (if_neg h) (w.charge m)

/-- A step for which there is room is only counted. -/
theorem tick_of_room {m : MeterId} {w : World} {n : Nat} (h : w.Room m (n + 1)) :
    tick m w = .ok () (w.charge m) := by
  obtain ⟨hm, hgas⟩ := h
  rw [tick_run, World.meter_charge hm]
  exact if_neg (by dsimp only; omega)

theorem withCall_run {α : Type} (m : MeterId) (body : EvalM α) (w : World) :
    withCall m body w =
      if (w.meter m).limits.depth ≤ (w.meter m).depth then
        .error (.error (.callDepthExceeded (w.meter m).limits.depth)) w
      else (body (w.enter m)).mapState (·.leave m) := by
  unfold withCall
  dsimp only
  split
  · rfl
  · cases hb : body (w.enter m) with
    | ok a w' =>
      rw [World.enter] at hb
      rw [hb]
      rfl
    | error e w' =>
      rw [World.enter] at hb
      rw [hb]
      rfl

/-- The state after a call is the one after the body, or the old one if the call is refused. -/
theorem withCall_state {α : Type} (m : MeterId) (body : EvalM α) (w : World) :
    (withCall m body w).state = w ∨
      (withCall m body w).state = (body (w.enter m)).state.leave m := by
  rw [withCall_run]
  split
  · exact .inl rfl
  · exact .inr (EStateM.Result.state_mapState _ _)

end Eval

end ObjectLang
