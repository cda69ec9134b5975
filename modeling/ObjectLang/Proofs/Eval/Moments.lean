import ObjectLang.Proofs.Eval.Lockstep
import ObjectLang.Proofs.Eval.Meter

/-!
# Moments of a run

A run is a sequence of steps, and a moment of the run is a world before or after one of them.
`Throughout I` says of a run that `I` holds at each of its moments, those inside of calls included.
A call is entered only if its meter allows one more, so at no moment are more calls active than a
meter allows. -/

namespace ObjectLang

/-- The meter allows `n` nested calls, and no more are active. -/
structure World.WithinDepth (m : MeterId) (n : Nat) (w : World) : Prop where
  limit_eq : (w.meter m).limits.depth = n
  depth_le : (w.meter m).depth ≤ n

namespace World

variable {m : MeterId} {n : Nat} {w : World}

/-- A meter may be changed if its limits stay and it is kept within the limit. -/
theorem WithinDepth.modifyMeter (h : w.WithinDepth m n) (m' : MeterId) {g : Meter → Meter}
    (hlimits : ∀ μ, (g μ).limits = μ.limits)
    (hdepth : (w.meter m').limits.depth = n → (w.meter m').depth ≤ n →
      (g (w.meter m')).depth ≤ n) : (w.modifyMeter m' g).WithinDepth m n := by
  have hlimit := meter_modifyMeter_field Meter.limits w m' m hlimits
  constructor
  · rw [hlimit]
    exact h.limit_eq
  · rw [meter_modifyMeter]
    by_cases hm : m' = m ∧ m' < w.meters.size
    · rw [if_pos hm]
      obtain ⟨rfl, -⟩ := hm
      exact hdepth h.limit_eq h.depth_le
    · rw [if_neg hm]
      exact h.depth_le

theorem WithinDepth.charge (h : w.WithinDepth m n) (m' : MeterId) :
    (w.charge m').WithinDepth m n :=
  h.modifyMeter m' (fun _ => rfl) fun _ hle => hle

/-- A call that its meter allows may be entered. -/
theorem WithinDepth.enter (h : w.WithinDepth m n) {m' : MeterId}
    (hfree : (w.meter m').depth < (w.meter m').limits.depth) : (w.enter m').WithinDepth m n := by
  refine h.modifyMeter m' (fun _ => rfl) fun hlimit _ => ?_
  rw [hlimit] at hfree
  exact hfree

theorem WithinDepth.leave (h : w.WithinDepth m n) (m' : MeterId) :
    (w.leave m').WithinDepth m n :=
  h.modifyMeter m' (fun _ => rfl) fun _ hle => Nat.le_trans (Nat.sub_le _ 1) hle

end World

namespace Eval

/-- The steps that a run is made of, apart from entering and leaving calls. -/
inductive IsStep : ∀ {α : Type}, EvalM α → Prop where
  | pure {α : Type} (a : α) : IsStep (pure a)
  | stop {α : Type} (e : Stop) : IsStep (throw e : EvalM α)
  | tick (m : MeterId) : IsStep (tick m)
  | newFrame (p : FrameId) : IsStep (newFrame p)
  | append (f : FrameId) (name : String) (v : Value) :
      IsStep (modify fun w => { w with store := w.store.append f name v })
  | replace (f : FrameId) (name : String) (v : Value) :
      IsStep (modify fun w => { w with store := w.store.replace f name v })
  | newFunction (function : Function) : IsStep (newFunction function)
  | recordPrinted (text : String) : IsStep (recordPrinted text)
  | recordLogged (v : Value) : IsStep (recordLogged v)

/-- At each moment of the run from `w` the world has the property `I`. -/
inductive Throughout (I : World → Prop) : ∀ {α : Type}, EvalM α → World → Prop where
  | step {α : Type} {x : EvalM α} {w : World} :
      IsStep x → I w → I (x w).state → Throughout I x w
  | bind {α β : Type} {x : EvalM α} {k : α → EvalM β} {w : World} :
      Throughout I x w → (∀ a w', x w = .ok a w' → Throughout I (k a) w') →
      Throughout I (x >>= k) w
  | read {α : Type} {k : World → EvalM α} {w : World} :
      Throughout I (k w) w → Throughout I (get >>= k) w
  /-- A call that is refused changes nothing. -/
  | refused {α : Type} {x : EvalM α} {m : MeterId} {w : World} :
      (w.meter m).limits.depth ≤ (w.meter m).depth → I w → Throughout I (withCall m x) w
  /-- The body of a call begins and ends while the call is active. -/
  | entered {α : Type} {x : EvalM α} {m : MeterId} {w : World} :
      (w.meter m).depth < (w.meter m).limits.depth → I w → Throughout I x (w.enter m) →
      I ((x (w.enter m)).state.leave m) → Throughout I (withCall m x) w

/-- The end of a run is one of its moments. -/
theorem Throughout.state {I : World → Prop} {α : Type} {x : EvalM α} {w : World}
    (h : Throughout I x w) : I (x w).state := by
  induction h with
  | step _ _ hend => exact hend
  | @bind _ _ x k w _ _ hx hk =>
    rw [bind_run]
    cases hrun : x w with
    | ok a w' => exact hk a w' hrun
    | error e w' =>
      rw [hrun] at hx
      exact hx
  | read _ hk => exact hk
  | refused hfull hw =>
    rw [withCall_run, if_pos hfull]
    exact hw
  | entered hfree _ _ hend _ =>
    rw [withCall_run, if_neg (Nat.not_le_of_lt hfree), EStateM.Result.state_mapState]
    exact hend

/-- A step neither enters nor leaves a call. -/
theorem IsStep.withinDepth {α : Type} {x : EvalM α} (hx : IsStep x) {m : MeterId} {n : Nat}
    {w : World} (hw : w.WithinDepth m n) : Throughout (World.WithinDepth m n) x w := by
  refine .step hx hw ?_
  cases hx with
  | tick m' =>
    rw [tick_run]
    dsimp only
    split <;> exact hw.charge m'
  | _ => exact ⟨hw.limit_eq, hw.depth_le⟩

/-- At no moment of a run are more calls active than the meter allows. -/
theorem withinDepth (m : MeterId) (n : Nat) : Lockstep.Calls fun _ _ x _ =>
    ∀ w : World, w.WithinDepth m n → Throughout (World.WithinDepth m n) x w where
  pure a := fun _ hw => (IsStep.pure a).withinDepth hw
  fail e _ := fun _ hw => (IsStep.stop (.error e)).withinDepth hw
  weaken _ h := h
  bind hx hk := fun w hw => by
    refine .bind (hx w hw) fun a w' hrun => hk a w' ?_
    have hend := (hx w hw).state
    rw [hrun] at hend
    exact hend
  read _ h := fun w hw => .read (h w w hw)
  tick m' _ := fun _ hw => (IsStep.tick m').withinDepth hw
  opened p := fun hk w hw =>
    .bind ((IsStep.newFrame p).withinDepth hw) fun f w' hrun => hk f w' (by
      cases hrun
      exact ⟨hw.limit_eq, hw.depth_le⟩)
  append f name v := fun _ hw => (IsStep.append f name v).withinDepth hw
  replace f name v := fun _ hw => (IsStep.replace f name v).withinDepth hw
  newFunction function _ := fun _ hw => (IsStep.newFunction function).withinDepth hw
  function id := fun h w hw => .read (h (w.function id) w hw)
  recordPrinted text := fun _ hw => (IsStep.recordPrinted text).withinDepth hw
  recordLogged v := fun _ hw => (IsStep.recordLogged v).withinDepth hw
  withCall m' := fun hx w hw => by
    by_cases hfull : (w.meter m').limits.depth ≤ (w.meter m').depth
    · exact .refused hfull hw
    · have hfree := Nat.lt_of_not_le hfull
      have hbody := hx (w.enter m') (hw.enter hfree)
      exact .entered hfree hw hbody (hbody.state.leave m')
  outOfFuel _ := fun _ hw => (IsStep.stop .outOfFuel).withinDepth hw

end Eval

end ObjectLang
