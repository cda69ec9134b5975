import ObjectLang.Proofs.Eval.Lockstep
import ObjectLang.Proofs.Eval.Meter

/-!
# Fuel is never used up

Evaluation enters and leaves calls in pairs, so a run ends with as many calls active as it began
with, and each call that is active takes one away from those that its meter still allows. A run that
starts with fuel for all calls that the meters allow therefore never gets to the end of its fuel. -/

namespace ObjectLang

/-- The meters of both worlds have the same limits and count the same active calls. -/
structure World.SameAllowance (w w' : World) : Prop where
  size_eq : w'.meters.size = w.meters.size
  limits_eq : ∀ m, (w'.meter m).limits = (w.meter m).limits
  depth_eq : ∀ m, (w'.meter m).depth = (w.meter m).depth

namespace World

theorem SameAllowance.of_meters_eq {w w' : World} (h : w'.meters = w.meters) :
    SameAllowance w w' := by
  have hmeter (m : MeterId) : w'.meter m = w.meter m := by rw [meter, meter, h]
  exact ⟨by rw [h], fun m => by rw [hmeter], fun m => by rw [hmeter]⟩

theorem SameAllowance.trans {w w' w'' : World} (h : SameAllowance w w')
    (h' : SameAllowance w' w'') : SameAllowance w w'' :=
  ⟨h'.size_eq.trans h.size_eq, fun m => (h'.limits_eq m).trans (h.limits_eq m),
    fun m => (h'.depth_eq m).trans (h.depth_eq m)⟩

theorem size_modifyMeter (w : World) (m : MeterId) (g : Meter → Meter) :
    (w.modifyMeter m g).meters.size = w.meters.size := by
  simp [modifyMeter]

theorem sameAllowance_charge (w : World) (m : MeterId) : SameAllowance w (w.charge m) :=
  ⟨size_modifyMeter w m _, fun m' => meter_modifyMeter_field Meter.limits w m m' fun _ => rfl,
    fun m' => meter_modifyMeter_field Meter.depth w m m' fun _ => rfl⟩

/-- A call that is left after it was entered is as if it had not been. -/
theorem SameAllowance.leave {w w' : World} {m : MeterId} (h : SameAllowance (w.enter m) w') :
    SameAllowance w (w'.leave m) := by
  have hsize : w'.meters.size = w.meters.size := h.size_eq.trans (size_modifyMeter w m _)
  refine ⟨(size_modifyMeter w' m _).trans hsize, ?_, ?_⟩
  · intro m'
    have hl := h.limits_eq m'
    have henter : ((w.enter m).meter m').limits = (w.meter m').limits :=
      meter_modifyMeter_field Meter.limits w m m' fun _ => rfl
    have hleave : ((w'.leave m).meter m').limits = (w'.meter m').limits :=
      meter_modifyMeter_field Meter.limits w' m m' fun _ => rfl
    rw [hleave, hl, henter]
  · intro m'
    have hd := h.depth_eq m'
    rw [World.enter, meter_modifyMeter] at hd
    rw [World.leave, meter_modifyMeter, hsize]
    split at hd
    · next hm => rw [if_pos hm, hd, Nat.add_sub_cancel]
    · next hm => rw [if_neg hm, hd]

theorem meters_getElem (w : World) {m : Nat} (h : m < w.meters.size) :
    w.meters[m] = w.meter m := by
  simp [meter, Array.getD_eq_getD_getElem?, h]

/-- Only the limits and the number of active calls count. -/
theorem freeDepthOf_congr {l l' : List Meter}
    (h : l.map Meter.freeDepth = l'.map Meter.freeDepth) :
    Meter.freeDepthOf l = Meter.freeDepthOf l' := by
  induction l generalizing l' with
  | nil =>
    cases l' with
    | nil => rfl
    | cons b l' => cases h
  | cons a l ih =>
    cases l' with
    | nil => cases h
    | cons b l' =>
      obtain ⟨hab, hl⟩ := List.cons.inj h
      rw [Meter.freeDepthOf, Meter.freeDepthOf, hab, ih hl]

theorem SameAllowance.freeDepth_eq {w w' : World} (h : SameAllowance w w') :
    w'.freeDepth = w.freeDepth := by
  refine freeDepthOf_congr (List.ext_getElem (by simpa using h.size_eq) fun m hm hm' => ?_)
  simp only [List.length_map, Array.length_toList] at hm hm'
  simp only [List.getElem_map, Array.getElem_toList, meters_getElem, Meter.freeDepth,
    h.limits_eq, h.depth_eq]

/-- A change of one meter counts for what it is. -/
theorem freeDepthOf_modify (g : Meter → Meter) (l : List Meter) {i : Nat} (hi : i < l.length) :
    Meter.freeDepthOf (l.modify i g) + l[i].freeDepth =
      Meter.freeDepthOf l + (g l[i]).freeDepth := by
  induction l generalizing i with
  | nil => simp at hi
  | cons a l ih =>
    cases i with
    | zero =>
      simp only [List.modify_zero_cons, Meter.freeDepthOf, List.getElem_cons_zero]
      omega
    | succ i =>
      have hl := ih (Nat.lt_of_succ_lt_succ hi)
      simp only [List.modify_succ_cons, Meter.freeDepthOf, List.getElem_cons_succ]
      omega

/-- A call uses up one of the calls that its meter allows. -/
theorem freeDepth_enter {w : World} {m : MeterId}
    (h : (w.meter m).depth < (w.meter m).limits.depth) :
    (w.enter m).freeDepth + 1 = w.freeDepth := by
  have hm : m < w.meters.size := by
    rcases Nat.lt_or_ge m w.meters.size with hm | hm
    · exact hm
    · simp [meter, Array.getD_eq_getD_getElem?, Array.getElem?_eq_none hm, Meter.closed] at h
  have hsum := freeDepthOf_modify (fun μ => { μ with depth := μ.depth + 1 })
    w.meters.toList (show m < w.meters.toList.length by simpa using hm)
  rw [Array.getElem_toList, meters_getElem] at hsum
  simp only [Meter.freeDepth] at hsum
  simp only [freeDepth, enter, modifyMeter, Array.toList_modify]
  omega

end World

namespace Eval

/-- Every call that a run enters is left again. -/
def Balanced {α : Type} (x : EvalM α) : Prop := ∀ w : World, w.SameAllowance (x w).state

namespace Balanced

variable {α β : Type} {x : EvalM α}

theorem bind {k : α → EvalM β} (hx : Balanced x) (hk : ∀ a, Balanced (k a)) :
    Balanced (x >>= k) := by
  intro w
  have hw := hx w
  rw [bind_run]
  cases h : x w with
  | ok a w' =>
    rw [h] at hw
    exact hw.trans (hk a w')
  | error e w' =>
    rw [h] at hw
    exact hw

theorem opened (p : FrameId) {k : FrameId → EvalM α} (hk : ∀ f, Balanced (k f)) :
    Balanced (newFrame p >>= k) := by
  intro w
  have hopen : w.SameAllowance (w.opened p) := .of_meters_eq rfl
  exact hopen.trans (hk w.store.size (w.opened p))

theorem withCall (m : MeterId) (h : Balanced x) : Balanced (withCall m x) := by
  intro w
  rcases withCall_state m x w with hs | hs
  · rw [hs]
    exact .of_meters_eq rfl
  · rw [hs]
    exact (h (w.enter m)).leave

end Balanced

theorem balanced_calls : Lockstep.Calls fun _ _ x _ => Balanced x where
  pure _ := fun w => .of_meters_eq rfl
  fail _ _ := fun w => .of_meters_eq rfl
  weaken _ h := h
  bind hx hk := Balanced.bind hx hk
  read _ h := fun w => h w w
  tick m := by
    intro _ w
    rw [tick_run]
    dsimp only
    split <;> exact w.sameAllowance_charge m
  opened p := fun hk => Balanced.opened p hk
  append f name v := fun w => .of_meters_eq rfl
  replace f name v := fun w => .of_meters_eq rfl
  newFunction function := fun _ w => .of_meters_eq rfl
  function id := fun h w => h (w.function id) w
  recordPrinted text := fun w => .of_meters_eq rfl
  recordLogged v := fun w => .of_meters_eq rfl
  withCall m := fun h => Balanced.withCall m h
  outOfFuel _ := fun w => .of_meters_eq rfl

/-- From a world that allows at most `n` more calls the run does not get to the end of its fuel. -/
structure Fueled (n : Nat) {α : Type} (x : EvalM α) : Prop where
  balanced : Balanced x
  ne_outOfFuel : ∀ w w' : World, w.freeDepth ≤ n → x w ≠ .error .outOfFuel w'

theorem fueled (n : Nat) : Lockstep (fun _ => True) fun _ _ x _ => Fueled n x where
  pure a := ⟨balanced_calls.pure a, fun w w' _ h => by cases h⟩
  fail e he := ⟨balanced_calls.fail e he, fun w w' _ h => by cases h⟩
  weaken _ h := h
  bind := by
    intro α β g x y k l hx hk
    refine ⟨hx.balanced.bind fun a => (hk a).balanced, ?_⟩
    intro w w' hw h
    have hsame := hx.balanced w
    rw [bind_run] at h
    cases hxw : x w with
    | ok a w₁ =>
      rw [hxw] at h hsame
      exact (hk a).ne_outOfFuel w₁ w' (hsame.freeDepth_eq ▸ hw) h
    | error e w₁ =>
      rw [hxw] at h
      cases h
      exact hx.ne_outOfFuel w w' hw hxw
  read _ h := ⟨fun w => (h w).balanced w, fun w => (h w).ne_outOfFuel w⟩
  tick m := by
    intro hm
    refine ⟨balanced_calls.tick m hm, ?_⟩
    intro w w' _ h
    rw [tick_run] at h
    dsimp only at h
    split at h <;> cases h
  opened := by
    intro α p k l hk
    exact ⟨.opened p fun f => (hk f).balanced, fun w =>
      (hk w.store.size).ne_outOfFuel (w.opened p)⟩
  append f name v := ⟨balanced_calls.append f name v, fun w w' _ h => by cases h⟩
  replace f name v := ⟨balanced_calls.replace f name v, fun w w' _ h => by cases h⟩
  newFunction function hf :=
    ⟨balanced_calls.newFunction function hf, fun w w' _ h => by cases h⟩
  function id := fun h => ⟨fun w => (h (w.function id)).balanced w,
    fun w => (h (w.function id)).ne_outOfFuel w⟩
  recordPrinted text := ⟨balanced_calls.recordPrinted text, fun w w' _ h => by cases h⟩
  recordLogged v := ⟨balanced_calls.recordLogged v, fun w w' _ h => by cases h⟩

theorem Fueled.withCall {n : Nat} (m : MeterId) {α : Type} {x : EvalM α} (h : Fueled n x) :
    Fueled (n + 1) (withCall m x) := by
  refine ⟨h.balanced.withCall m, ?_⟩
  intro w w' hw hout
  rw [withCall_run] at hout
  split at hout
  · cases hout
  · next hlt =>
    have hfree := World.freeDepth_enter (Nat.lt_of_not_le hlt)
    cases hx : x (w.enter m) with
    | ok a w₁ =>
      rw [hx] at hout
      cases hout
    | error e w₁ =>
      rw [hx] at hout
      cases hout
      exact h.ne_outOfFuel _ w₁ (by omega) hx

/-- No call begins where none is allowed. -/
theorem Fueled.withCall_zero (m : MeterId) {α : Type} {x : EvalM α} (h : Balanced x) :
    Fueled 0 (Eval.withCall m x) := by
  refine ⟨h.withCall m, ?_⟩
  intro w w' hw hout
  rw [withCall_run] at hout
  split at hout
  · cases hout
  · next hlt =>
    have hfree := World.freeDepth_enter (Nat.lt_of_not_le hlt)
    omega

/-- Fuel for as many calls as the meters allow is never used up. -/
theorem call_fueled (n : Nat) (id : FunctionId) (arguments : List Value) :
    Fueled n (call n id arguments) := by
  induction n generalizing id arguments with
  | zero =>
    refine (fueled 0).call_of_withCall (n := 0) (k := 0) (fun c arguments => ?_) id arguments
    exact .withCall_zero c.meter (balanced_calls.outOfFuel (runBody 0 c arguments))
  | succ n ih =>
    refine (fueled (n + 1)).call_of_withCall (k := n + 1) (fun c arguments => ?_) id arguments
    exact ((fueled n).runBody (k := n) ih trivial arguments).withCall c.meter

end Eval

/-- A program never gets to the end of its fuel. -/
theorem Program.run_ne_outOfFuel (c : Context) (p : Program) (w w' : World) :
    p.run c w ≠ .error .outOfFuel w' := by
  have hp := (Eval.fueled w.freeDepth).program (k := w.freeDepth) (Eval.call_fueled _) (c := c) trivial p
  exact hp.ne_outOfFuel w w' (Nat.le_refl _)

theorem Program.runWith_avoids_outOfFuel (p : Program) (f : FrameId) (limits : Limits)
    (w : World) : (p.runWith limits f w).Avoids (· = .outOfFuel) := by
  rintro e w' h rfl
  exact p.run_ne_outOfFuel _ _ w' h

end ObjectLang
