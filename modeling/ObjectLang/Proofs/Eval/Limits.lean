import ObjectLang.Proofs.Eval.Growth
import ObjectLang.Proofs.Eval.Fuel

/-!
# Limits only cut runs short

A run reads the limits of a meter only to fail when they are exceeded. Two runs from worlds that
differ in the limit of one meter therefore go on side by side until the smaller limit is reached.
For gas the run that reaches it stops there, with what it has printed and logged so far. A larger
limit on nested calls is never noticed by a run that stays within the smaller one. -/

namespace ObjectLang

namespace World

theorem ext_meters {w w' : World} (hs : w.store = w'.store) (hf : w.functions = w'.functions)
    (hm : w.meters = w'.meters) (hp : w.printed = w'.printed) (hl : w.logged = w'.logged) :
    w = w' := by
  cases w
  cases w'
  simp only at hs hf hm hp hl
  subst hs hf hm hp hl
  rfl

/-- Changes of meters that do not get in each other's way can be swapped. -/
theorem modifyMeter_comm (w : World) (m m' : MeterId) {g h : Meter → Meter}
    (hgh : ∀ μ, g (h μ) = h (g μ)) :
    (w.modifyMeter m g).modifyMeter m' h = (w.modifyMeter m' h).modifyMeter m g := by
  refine ext_meters rfl rfl (Array.ext_getElem? fun i => ?_) rfl rfl
  simp only [modifyMeter, Array.getElem?_modify]
  split <;> split <;> cases w.meters[i]? <;> simp [hgh]

/-- The world in which a meter has another gas limit. -/
def withGas (m : MeterId) (gas : Nat) (w : World) : World :=
  w.modifyMeter m fun μ => { μ with limits := { μ.limits with gas := gas } }

/-- The world in which a meter has another limit on nested calls. -/
def withDepth (m : MeterId) (depth : Nat) (w : World) : World :=
  w.modifyMeter m fun μ => { μ with limits := { μ.limits with depth := depth } }

variable (w : World) (m m' : MeterId) (n : Nat)

theorem withGas_charge : (w.withGas m n).charge m' = (w.charge m').withGas m n :=
  modifyMeter_comm w m m' fun _ => rfl

theorem withGas_enter : (w.withGas m n).enter m' = (w.enter m').withGas m n :=
  modifyMeter_comm w m m' fun _ => rfl

theorem withGas_leave : (w.withGas m n).leave m' = (w.leave m').withGas m n :=
  modifyMeter_comm w m m' fun _ => rfl

theorem withDepth_charge : (w.withDepth m n).charge m' = (w.charge m').withDepth m n :=
  modifyMeter_comm w m m' fun _ => rfl

theorem withDepth_enter : (w.withDepth m n).enter m' = (w.enter m').withDepth m n :=
  modifyMeter_comm w m m' fun _ => rfl

theorem withDepth_leave : (w.withDepth m n).leave m' = (w.leave m').withDepth m n :=
  modifyMeter_comm w m m' fun _ => rfl

end World

/-- A run stopped because the gas of some meter was used up. -/
def Stop.IsGasExhausted : Stop → Prop
  | .error (.gasExhausted _) => True
  | _ => False

/-- A run stopped because too many calls were nested. -/
def Stop.IsCallDepthExceeded : Stop → Prop
  | .error (.callDepthExceeded _) => True
  | _ => False

instance : DecidablePred Stop.IsGasExhausted := fun e => by
  unfold Stop.IsGasExhausted
  split <;> infer_instance

instance : DecidablePred Stop.IsCallDepthExceeded := fun e => by
  unfold Stop.IsCallDepthExceeded
  split <;> infer_instance

namespace Eval

/-! ## More or less gas -/

/-- How a run `r'` in which the gas limit of the meter `m` is `gas` compares to the run `r`. If `r`
got along with that much gas they are the same, otherwise `r'` stops one step over the limit. -/
inductive Cut (m : MeterId) (gas : Nat) {α : Type} (r r' : EStateM.Result Stop World α) : Prop
  | same (hgas : (r.state.meter m).gas ≤ gas) (heq : r' = r.mapState (·.withGas m gas))
  | short (hgas : gas < (r.state.meter m).gas) (w' : World)
      (heq : r' = .error (.error (.gasExhausted gas)) w') (hused : (w'.meter m).gas = gas + 1)
      (hprinted : w'.printed.toList <+: r.state.printed.toList)
      (hlogged : w'.logged.toList <+: r.state.logged.toList)

/-- What `x` does without running out of gas or fuel, `y` does with another gas limit, up to where
that limit is exceeded. -/
structure Metered (m : MeterId) (gas : Nat) (g : Option FrameId) {α : Type} (x y : EvalM α) : Prop where
  confined : Confined g x
  cut : ∀ w : World, (w.meter m).gas ≤ gas → (x w).Avoids Stop.IsGasExhausted →
    (x w).Avoids (· = .outOfFuel) → Cut m gas (x w) (y (w.withGas m gas))

variable {m : MeterId} {gas : Nat}

/-- A step that does not look at the meters is the same under every limit. -/
theorem Metered.of_eq {g : Option FrameId} {α : Type} {x : EvalM α} (hx : Confined g x)
    (hm : ∀ w, (x w).state.meters = w.meters)
    (h : ∀ w : World, x (w.withGas m gas) = (x w).mapState (·.withGas m gas)) :
    Metered m gas g x x := by
  refine ⟨hx, fun w hgas _ _ => .same ?_ (h w)⟩
  rw [World.meter, hm w]
  exact hgas

theorem Cut.withCall {m' : MeterId} {α : Type} {r r' : EStateM.Result Stop World α}
    (h : Cut m gas r r') : Cut m gas (r.mapState (·.leave m')) (r'.mapState (·.leave m')) := by
  have hleave (w : World) : ((w.leave m').meter m).gas = (w.meter m).gas :=
    World.meter_modifyMeter_field Meter.gas w m' m fun _ => rfl
  cases h with
  | same hgas heq =>
    refine .same ?_ ?_
    · rw [EStateM.Result.state_mapState, hleave]
      exact hgas
    · rw [heq]
      cases r <;> simp [World.withGas_leave]
  | short hgas w' heq hused hprinted hlogged =>
    refine .short ?_ (w'.leave m') ?_ ?_ ?_ ?_
    · rw [EStateM.Result.state_mapState, hleave]
      exact hgas
    · rw [heq, EStateM.Result.mapState_error]
    · rw [hleave]
      exact hused
    · rw [EStateM.Result.state_mapState]
      exact hprinted
    · rw [EStateM.Result.state_mapState]
      exact hlogged

/-- A step is charged under every limit, and fails under the limit that it exceeds. -/
theorem Metered.tick (m' : MeterId) : Metered m gas none (tick m') (tick m') := by
  refine ⟨Eval.confined.tick m' trivial, ?_⟩
  intro w hgas hok _
  -- the run that is compared against has not failed
  have hle : ((w.charge m').meter m').gas ≤ ((w.charge m').meter m').limits.gas := by
    rw [tick_run] at hok
    dsimp only at hok
    split at hok
    · exact absurd trivial (hok _ _ rfl)
    · next h => exact Nat.le_of_not_lt h
  have hx : Eval.tick m' w = .ok () (w.charge m') := by
    rw [tick_run]
    exact if_neg (Nat.not_lt.mpr hle)
  rw [hx, tick_run, World.withGas_charge]
  dsimp only
  have hy := (w.charge m').meter_modifyMeter m m'
    fun μ => { μ with limits := { μ.limits with gas := gas } }
  rw [← World.withGas, World.charge, World.size_modifyMeter, ← World.charge] at hy
  have hc := w.meter_modifyMeter m' m fun μ => { μ with gas := μ.gas + 1 }
  rw [← World.charge] at hc
  by_cases hm : m = m' ∧ m < w.meters.size
  · obtain ⟨rfl, hsize⟩ := hm
    rw [if_pos ⟨rfl, hsize⟩] at hy hc
    rw [hy]
    by_cases hlt : gas < ((w.charge m).meter m).gas
    · rw [if_pos hlt]
      refine .short hlt _ rfl ?_ List.prefix_rfl List.prefix_rfl
      rw [hy]
      rw [hc] at hlt ⊢
      exact Nat.le_antisymm (Nat.succ_le_succ hgas) hlt
    · rw [if_neg hlt]
      exact .same (Nat.le_of_not_lt hlt) rfl
  · rw [if_neg hm] at hy
    have hm' : ¬ (m' = m ∧ m' < w.meters.size) := fun h => hm ⟨h.1.symm, h.1 ▸ h.2⟩
    rw [if_neg hm'] at hc
    rw [hy, if_neg (Nat.not_lt.mpr hle)]
    refine .same ?_ rfl
    rw [EStateM.Result.state_ok, hc]
    exact hgas

theorem Metered.bind {g : Option FrameId} {α β : Type} {x y : EvalM α} {k l : α → EvalM β}
    (hx : Metered m gas g x y) (hk : ∀ a, Metered m gas g (k a) (l a)) :
    Metered m gas g (x >>= k) (y >>= l) := by
  refine ⟨hx.confined.bind fun a => (hk a).confined, ?_⟩
  intro w hgas hok hfuel
  have hcut := hx.cut w hgas (avoids_of_bind hok) (avoids_of_bind hfuel)
  rw [bind_run] at hok hfuel ⊢
  rw [bind_run]
  cases hxw : x w with
  | error e w₁ =>
    rw [hxw] at hcut
    cases hcut with
    | same hgas' heq =>
      rw [heq]
      exact .same hgas' rfl
    | short hgas' w' heq hused hprinted hlogged =>
      rw [heq]
      exact .short hgas' w' rfl hused hprinted hlogged
  | ok a w₁ =>
    rw [hxw] at hok hfuel hcut
    have hgrows := (hk a).confined w₁
    cases hcut with
    | same hgas' heq =>
      rw [heq]
      exact (hk a).cut w₁ hgas' hok hfuel
    | short hgas' w' heq hused hprinted hlogged =>
      -- the rest of `x` only adds to what was printed and logged
      rw [heq]
      exact .short (hgas'.trans_le (hgrows.gas_le m)) w' rfl hused
        (hprinted.trans hgrows.printed) (hlogged.trans hgrows.logged)

theorem Metered.withCall (m' : MeterId) {α : Type} {x y : EvalM α} (h : Metered m gas none x y) :
    Metered m gas none (withCall m' x) (withCall m' y) := by
  refine ⟨h.confined.withCall m', ?_⟩
  intro w hgas hok hfuel
  have hdepth : ((w.withGas m gas).meter m').depth = (w.meter m').depth :=
    World.meter_modifyMeter_field Meter.depth w m m' fun _ => rfl
  have hlimit : ((w.withGas m gas).meter m').limits.depth = (w.meter m').limits.depth :=
    World.meter_modifyMeter_field (fun μ => μ.limits.depth) w m m' fun _ => rfl
  have henter : ((w.enter m').meter m).gas = (w.meter m).gas :=
    World.meter_modifyMeter_field Meter.gas w m' m fun _ => rfl
  rw [withCall_run] at hok hfuel
  rw [withCall_run, withCall_run, hdepth, hlimit, World.withGas_enter]
  by_cases hfull : (w.meter m').limits.depth ≤ (w.meter m').depth
  · rw [if_pos hfull, if_pos hfull]
    exact .same hgas rfl
  · rw [if_neg hfull, EStateM.Result.avoids_mapState] at hok hfuel
    rw [if_neg hfull, if_neg hfull]
    exact (h.cut (w.enter m') (henter.symm ▸ hgas) hok hfuel).withCall

/-- Evaluation under another gas limit goes side by side, up to that limit. -/
theorem metered (m : MeterId) (gas : Nat) : Lockstep.Calls (Metered m gas) where
  pure a := .of_eq (confined.pure a) (fun _ => rfl) fun _ => rfl
  fail e he := .of_eq (confined.fail e he) (fun _ => rfl) fun _ => rfl
  weaken g h := ⟨fun w => (h.confined w).weaken g, h.cut⟩
  bind hx hk := hx.bind hk
  read := by
    intro α g x y hy h
    refine ⟨fun w => (h w).confined w, ?_⟩
    intro w hgas hok hfuel
    rw [get_bind_run, get_bind_run, ← hy w (w.withGas m gas) rfl rfl]
    exact (h w).cut w hgas hok hfuel
  tick m' _ := .tick m'
  opened := by
    intro α p k l hk
    refine ⟨.opened p fun f => (hk f).confined, ?_⟩
    intro w hgas hok hfuel
    exact (hk w.store.size).cut (w.opened p) hgas hok hfuel
  append f name v := .of_eq (confined.append f name v) (fun _ => rfl) fun _ => rfl
  replace f name v := .of_eq (confined.replace f name v) (fun _ => rfl) fun _ => rfl
  newFunction function hf := .of_eq (confined.newFunction function hf) (fun _ => rfl) fun _ => rfl
  function id := fun h =>
    ⟨fun w => (h (w.function id)).confined w, fun w => (h (w.function id)).cut w⟩
  recordPrinted text := .of_eq (confined.recordPrinted text) (fun _ => rfl) fun _ => rfl
  recordLogged v := .of_eq (confined.recordLogged v) (fun _ => rfl) fun _ => rfl
  withCall m' := fun h => h.withCall m'
  outOfFuel y := ⟨confined_calls.outOfFuel y, fun w _ _ hfuel => absurd rfl (hfuel _ _ rfl)⟩

/-! ## Deeper calls -/

/-- What `x` does without nesting too many calls and without running out of fuel, `y` does with a
higher limit on nested calls. -/
structure Deepened (m : MeterId) (depth : Nat) {α : Type} (x y : EvalM α) : Prop where
  balanced : Balanced x
  same : ∀ w : World, (w.meter m).limits.depth ≤ depth → (x w).Avoids Stop.IsCallDepthExceeded →
    (x w).Avoids (· = .outOfFuel) → y (w.withDepth m depth) = (x w).mapState (·.withDepth m depth)

variable {depth : Nat}

theorem Deepened.of_eq {α : Type} {x : EvalM α} (hx : Balanced x)
    (h : ∀ w : World, x (w.withDepth m depth) = (x w).mapState (·.withDepth m depth)) :
    Deepened m depth x x :=
  ⟨hx, fun w _ _ _ => h w⟩

theorem Deepened.tick (m' : MeterId) : Deepened m depth (tick m') (tick m') := by
  refine .of_eq (balanced_calls.tick m' trivial) ?_
  intro w
  have hgas : (((w.charge m').withDepth m depth).meter m').gas = ((w.charge m').meter m').gas :=
    World.meter_modifyMeter_field Meter.gas _ m m' fun _ => rfl
  have hlimit : (((w.charge m').withDepth m depth).meter m').limits.gas =
      ((w.charge m').meter m').limits.gas :=
    World.meter_modifyMeter_field (fun μ => μ.limits.gas) _ m m' fun _ => rfl
  rw [tick_run, tick_run, World.withDepth_charge]
  dsimp only
  rw [hgas, hlimit]
  split <;> rfl

theorem Deepened.bind {α β : Type} {x y : EvalM α} {k l : α → EvalM β}
    (hx : Deepened m depth x y) (hk : ∀ a, Deepened m depth (k a) (l a)) :
    Deepened m depth (x >>= k) (y >>= l) := by
  refine ⟨hx.balanced.bind fun a => (hk a).balanced, ?_⟩
  intro w hdepth hok hfuel
  have hsame := hx.same w hdepth (avoids_of_bind hok) (avoids_of_bind hfuel)
  have hallow := hx.balanced w
  rw [bind_run] at hok hfuel
  rw [bind_run, bind_run]
  cases hxw : x w with
  | error e w₁ =>
    rw [hxw] at hsame
    rw [hsame]
    rfl
  | ok a w₁ =>
    rw [hxw] at hok hfuel hsame hallow
    rw [hsame]
    have hlimits : (w₁.meter m).limits = (w.meter m).limits := hallow.limits_eq m
    have hdepth' : (w₁.meter m).limits.depth ≤ depth := by
      rw [hlimits]
      exact hdepth
    exact (hk a).same w₁ hdepth' hok hfuel

/-- A call that is entered under the lower limit is entered under the higher one. -/
theorem Deepened.withCall (m' : MeterId) {α : Type} {x y : EvalM α} (h : Deepened m depth x y) :
    Deepened m depth (withCall m' x) (withCall m' y) := by
  refine ⟨h.balanced.withCall m', ?_⟩
  intro w hdepth hok hfuel
  have hactive : ((w.withDepth m depth).meter m').depth = (w.meter m').depth :=
    World.meter_modifyMeter_field Meter.depth w m m' fun _ => rfl
  have hlimit : (w.meter m').limits.depth ≤ ((w.withDepth m depth).meter m').limits.depth := by
    rw [World.withDepth, World.meter_modifyMeter]
    split
    · next hm => exact hm.1 ▸ hdepth
    · exact Nat.le_refl _
  have henter : ((w.enter m').meter m).limits = (w.meter m).limits :=
    World.meter_modifyMeter_field Meter.limits w m' m fun _ => rfl
  rw [withCall_run] at hok hfuel
  rw [withCall_run, withCall_run, hactive, World.withDepth_enter]
  by_cases hfull : (w.meter m').limits.depth ≤ (w.meter m').depth
  · rw [if_pos hfull] at hok
    exact absurd trivial (hok _ _ rfl)
  · rw [if_neg hfull, EStateM.Result.avoids_mapState] at hok hfuel
    rw [if_neg hfull, if_neg fun h => hfull (hlimit.trans h),
      h.same (w.enter m') (henter.symm ▸ hdepth) hok hfuel]
    cases x (w.enter m') <;> simp [World.withDepth_leave]

/-- Evaluation under a higher limit on nested calls goes side by side. -/
theorem deepened (m : MeterId) (depth : Nat) : Lockstep.Calls fun _ _ x y => Deepened m depth x y where
  pure a := .of_eq (balanced_calls.pure a) fun _ => rfl
  fail e he := .of_eq (balanced_calls.fail e he) fun _ => rfl
  weaken _ h := h
  bind hx hk := hx.bind hk
  read := by
    intro α g x y hy h
    refine ⟨fun w => (h w).balanced w, ?_⟩
    intro w hdepth hok hfuel
    rw [get_bind_run, get_bind_run, ← hy w (w.withDepth m depth) rfl rfl]
    exact (h w).same w hdepth hok hfuel
  tick m' _ := .tick m'
  opened := by
    intro α p k l hk
    refine ⟨.opened p fun f => (hk f).balanced, ?_⟩
    intro w hdepth hok hfuel
    exact (hk w.store.size).same (w.opened p) hdepth hok hfuel
  append f name v := .of_eq (balanced_calls.append f name v) fun _ => rfl
  replace f name v := .of_eq (balanced_calls.replace f name v) fun _ => rfl
  newFunction function hf := .of_eq (balanced_calls.newFunction function hf) fun _ => rfl
  function id := fun h =>
    ⟨fun w => (h (w.function id)).balanced w, fun w => (h (w.function id)).same w⟩
  recordPrinted text := .of_eq (balanced_calls.recordPrinted text) fun _ => rfl
  recordLogged v := .of_eq (balanced_calls.recordLogged v) fun _ => rfl
  withCall m' := fun h => h.withCall m'
  outOfFuel y := ⟨balanced_calls.outOfFuel y, fun w _ _ hfuel => absurd rfl (hfuel _ _ rfl)⟩

end Eval

/-! ## Programs -/

namespace World

variable (w : World) (limits : Limits)

theorem meter_withMeter : (w.withMeter limits).meter w.meters.size = { limits := limits } := by
  simp [meter, withMeter, Array.getD_eq_getD_getElem?]

theorem modifyMeter_withMeter (g : Meter → Meter) :
    (w.withMeter limits).modifyMeter w.meters.size g =
      { w with meters := w.meters.push (g { limits := limits }) } := by
  refine ext_meters rfl rfl (Array.ext_getElem? fun i => ?_) rfl rfl
  simp only [modifyMeter, withMeter, Array.getElem?_modify, Array.getElem?_push]
  by_cases hi : i = w.meters.size
  · simp [hi]
  · simp [hi, Ne.symm hi]

theorem withGas_withMeter (gas : Nat) : (w.withMeter limits).withGas w.meters.size gas =
    w.withMeter { limits with gas := gas } :=
  modifyMeter_withMeter w limits _

theorem withDepth_withMeter (depth : Nat) : (w.withMeter limits).withDepth w.meters.size depth =
    w.withMeter { limits with depth := depth } :=
  modifyMeter_withMeter w limits _

end World

namespace Program

variable (p : Program) (f : FrameId) (limits : Limits) (w : World)

theorem runWith_cut (gas : Nat) (hok : (p.runWith limits f w).Avoids Stop.IsGasExhausted) :
    Eval.Cut w.meters.size gas (p.runWith limits f w)
      (p.runWith { limits with gas := gas } f w) := by
  have hfuel := p.runWith_avoids_outOfFuel f limits w
  have hR := Eval.metered w.meters.size gas
  have hrun := hR.program (hR.call (Nat.le_refl (w.freeDepth + limits.depth)))
    (c := ⟨f, w.meters.size⟩) trivial p
  have hgas : ((w.withMeter limits).meter w.meters.size).gas ≤ gas := by
    rw [w.meter_withMeter limits]
    exact Nat.zero_le gas
  rw [runWith_eq] at hok hfuel
  rw [runWith_eq, runWith_eq, ← w.withGas_withMeter limits gas]
  exact hrun.cut (w.withMeter limits) hgas hok hfuel

theorem runWith_deepened {depth : Nat} (hdepth : limits.depth ≤ depth)
    (hok : (p.runWith limits f w).Avoids Stop.IsCallDepthExceeded) :
    p.runWith { limits with depth := depth } f w =
      (p.runWith limits f w).mapState (·.withDepth w.meters.size depth) := by
  have hfuel := p.runWith_avoids_outOfFuel f limits w
  have hR := Eval.deepened w.meters.size depth
  have hrun := hR.program (hR.call (Nat.add_le_add_left hdepth w.freeDepth))
    (c := ⟨f, w.meters.size⟩) trivial p
  have hlimit : ((w.withMeter limits).meter w.meters.size).limits.depth ≤ depth := by
    rw [w.meter_withMeter limits]
    exact hdepth
  rw [runWith_eq] at hok hfuel
  rw [runWith_eq, runWith_eq, ← w.withDepth_withMeter limits depth]
  exact hrun.same (w.withMeter limits) hlimit hok hfuel

/-- Limits only cut a run short. A run that does not exhaust its gas is the same under every gas
limit that covers what it used, apart from the limit itself, and stops one step over every lower
limit, with the first of the texts and values that it printed and logged. A run that does not nest
too many calls is the same under every higher limit on nested calls. -/
theorem runWith_limits {r : EStateM.Result Stop World Value} (hr : p.runWith limits f w = r) :
    (r.Avoids Stop.IsGasExhausted →
      (∀ gas, (r.state.meter w.meters.size).gas ≤ gas →
        p.runWith { limits with gas := gas } f w = r.mapState (·.withGas w.meters.size gas)) ∧
      ∀ gas, gas < (r.state.meter w.meters.size).gas → ∃ w',
        p.runWith { limits with gas := gas } f w = .error (.error (.gasExhausted gas)) w' ∧
        (w'.meter w.meters.size).gas = gas + 1 ∧
        w'.printed.toList <+: r.state.printed.toList ∧
        w'.logged.toList <+: r.state.logged.toList) ∧
    (r.Avoids Stop.IsCallDepthExceeded → ∀ depth, limits.depth ≤ depth →
      p.runWith { limits with depth := depth } f w =
        r.mapState (·.withDepth w.meters.size depth)) := by
  subst hr
  refine ⟨fun hok => ⟨?_, ?_⟩, ?_⟩
  · intro gas hgas
    cases p.runWith_cut f limits w gas hok with
    | same _ heq => exact heq
    | short hlt => exact absurd hgas (Nat.not_le_of_lt hlt)
  · intro gas hgas
    cases p.runWith_cut f limits w gas hok with
    | same hle _ => exact absurd hgas (Nat.not_lt_of_le hle)
    | short _ w' heq hused hprinted hlogged => exact ⟨w', heq, hused, hprinted, hlogged⟩
  · intro hok depth hdepth
    exact p.runWith_deepened f limits w hdepth hok

/-- A program that prints a text. -/
def printing : Program := ⟨[.expression (.call "print" [.literal (.string "a")])]⟩

/-- Printing a text takes three steps. It does the same under a limit of three steps and more nested
calls, and is cut short by a limit of two. -/
theorem runWith_limits_printing :
    (printing.runWith ⟨10, 1⟩ 0 (Eval.environment {}).state).Avoids Stop.IsGasExhausted ∧
    (printing.runWith ⟨10, 1⟩ 0 (Eval.environment {}).state).Avoids Stop.IsCallDepthExceeded ∧
    printing.runWith ⟨3, 1⟩ 0 (Eval.environment {}).state =
      (printing.runWith ⟨10, 1⟩ 0 (Eval.environment {}).state).mapState (·.withGas 0 3) ∧
    (∃ w', printing.runWith ⟨2, 1⟩ 0 (Eval.environment {}).state =
        .error (.error (.gasExhausted 2)) w' ∧ (w'.meter 0).gas = 3) ∧
    printing.runWith ⟨10, 7⟩ 0 (Eval.environment {}).state =
      (printing.runWith ⟨10, 1⟩ 0 (Eval.environment {}).state).mapState (·.withDepth 0 7) := by
  have hgas : (printing.runWith ⟨10, 1⟩ 0 (Eval.environment {}).state).Avoids
      Stop.IsGasExhausted := by
    decide +kernel
  have hdepth : (printing.runWith ⟨10, 1⟩ 0 (Eval.environment {}).state).Avoids
      Stop.IsCallDepthExceeded := by
    decide +kernel
  have hused : ((printing.runWith ⟨10, 1⟩ 0 (Eval.environment {}).state).state.meter 0).gas = 3 := by
    decide +kernel
  obtain ⟨hcut, hdeep⟩ := runWith_limits printing 0 ⟨10, 1⟩ (Eval.environment {}).state rfl
  obtain ⟨w', hw', hover, -, -⟩ := (hcut hgas).2 2 (hused ▸ (by decide : 2 < 3))
  exact ⟨hgas, hdepth, (hcut hgas).1 3 hused.le, ⟨w', hw', hover⟩, hdeep hdepth 7 (by decide)⟩

end Program

end ObjectLang
