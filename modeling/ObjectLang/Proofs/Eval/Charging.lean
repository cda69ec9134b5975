import Mathlib.Algebra.Order.BigOperators.Group.Finset
import ObjectLang.Proofs.Eval.Limits

/-!
# Which meters a run charges

A run is accounted for meter by meter: it charges none of them beyond its limit, or fails at the
first step that does. The meters that it can charge are that of its context and those that the
functions of the world are charged to, and the functions that it makes are charged to one of these
again. So the calls that these meters allow are fuel enough. -/

namespace ObjectLang

namespace World

/-! ## Accounts -/

/-- From `w` to `w'` steps were charged, to no meter more than its limit allows. -/
def Within (w w' : World) : Prop :=
  ∀ m, (w.meter m).gas ≤ (w'.meter m).gas ∧
    (w'.meter m).gas ≤ max (w.meter m).gas (w.meter m).limits.gas

/-- From `w` to `w'` the meter `m` was charged one step more than its limit allows, and no other
meter was. -/
structure Exhausts (m : MeterId) (w w' : World) : Prop where
  past : (w'.meter m).gas = max (w.meter m).gas (w.meter m).limits.gas + 1
  others : ∀ m', m' ≠ m → (w.meter m').gas ≤ (w'.meter m').gas ∧
    (w'.meter m').gas ≤ max (w.meter m').gas (w.meter m').limits.gas

variable {w w' w'' : World} {m : MeterId}

theorem Within.of_gas_eq (h : ∀ m, (w'.meter m).gas = (w.meter m).gas) : w.Within w' := by
  intro m
  rw [h]
  exact ⟨le_rfl, le_max_left _ _⟩

theorem Within.trans (h : w.Within w') (hs : w.SameAllowance w') (h' : w'.Within w'') :
    w.Within w'' := by
  intro m
  have hm := h m
  have hm' := h' m
  rw [hs.limits_eq] at hm'
  exact ⟨hm.1.trans hm'.1, by omega⟩

theorem Within.exhausts (h : w.Within w') (hs : w.SameAllowance w') (h' : w'.Exhausts m w'') :
    w.Exhausts m w'' := by
  constructor
  · have hm := h m
    have hpast := h'.past
    rw [hs.limits_eq] at hpast
    omega
  · intro m' hne
    have hm := h m'
    have hothers := h'.others m' hne
    rw [hs.limits_eq] at hothers
    exact ⟨hm.1.trans hothers.1, by omega⟩

/-- The exhausted meter was charged, and beyond its limit. -/
theorem Exhausts.lt (h : w.Exhausts m w') :
    (w.meter m).gas < (w'.meter m).gas ∧ (w.meter m).limits.gas < (w'.meter m).gas := by
  have hpast := h.past
  omega

theorem gas_charge (w : World) (m m' : MeterId) :
    ((w.charge m).meter m').gas =
      if m = m' ∧ m < w.meters.size then (w.meter m').gas + 1 else (w.meter m').gas := by
  rw [charge, meter_modifyMeter]
  split <;> rfl

/-- A step that is not over the limit of its meter. -/
theorem Within.charge (h : ((w.charge m).meter m).gas ≤ (w.meter m).limits.gas) :
    w.Within (w.charge m) := by
  intro m'
  rw [gas_charge]
  split
  · next hm =>
    obtain ⟨rfl, hsize⟩ := hm
    rw [gas_charge, if_pos ⟨rfl, hsize⟩] at h
    exact ⟨Nat.le_succ _, h.trans (le_max_right _ _)⟩
  · exact ⟨le_rfl, le_max_left _ _⟩

/-- A step over the limit of its meter. -/
theorem Exhausts.charge (h : (w.meter m).limits.gas < ((w.charge m).meter m).gas) :
    w.Exhausts m (w.charge m) := by
  have hsize : m < w.meters.size := by
    by_contra hsize
    rw [gas_charge, if_neg fun hm => hsize hm.2] at h
    have hclosed : w.meter m = .closed := by
      rw [meter, Array.getD_eq_getD_getElem?, Array.getElem?_eq_none (Nat.le_of_not_lt hsize)]
      rfl
    rw [hclosed] at h
    exact Nat.lt_irrefl _ h
  rw [gas_charge, if_pos ⟨rfl, hsize⟩] at h
  constructor
  · rw [gas_charge, if_pos ⟨rfl, hsize⟩]
    omega
  · intro m' hne
    rw [gas_charge, if_neg fun hm => hne hm.1.symm]
    exact ⟨le_rfl, le_max_left _ _⟩

theorem gas_enter (w : World) (m m' : MeterId) : ((w.enter m).meter m').gas = (w.meter m').gas :=
  meter_modifyMeter_field Meter.gas w m m' fun _ => rfl

theorem gas_leave (w : World) (m m' : MeterId) : ((w.leave m).meter m').gas = (w.meter m').gas :=
  meter_modifyMeter_field Meter.gas w m m' fun _ => rfl

theorem limits_enter (w : World) (m m' : MeterId) :
    ((w.enter m).meter m').limits = (w.meter m').limits :=
  meter_modifyMeter_field Meter.limits w m m' fun _ => rfl

/-- Entering and leaving a call charges nothing. -/
theorem Within.of_call (h : (w.enter m).Within w') : w.Within (w'.leave m) := by
  intro m'
  have hm' := h m'
  rw [gas_enter, limits_enter] at hm'
  rw [gas_leave]
  exact hm'

theorem Exhausts.of_call {m' : MeterId} (h : (w.enter m').Exhausts m w') :
    w.Exhausts m (w'.leave m') := by
  constructor
  · have hpast := h.past
    rw [gas_enter, limits_enter] at hpast
    rw [gas_leave]
    exact hpast
  · intro m₁ hne
    have hothers := h.others m₁ hne
    rw [gas_enter, limits_enter] at hothers
    rw [gas_leave]
    exact hothers

end World

namespace Eval

/-- How a run that begins in `w` may end: either all meters are within their limits, or the run
fails because one meter is not. -/
inductive Accounts (w : World) {α : Type} : EStateM.Result Stop World α → Prop
  | ok {a : α} {w' : World} (h : w.Within w') : Accounts w (.ok a w')
  | error {e : Stop} {w' : World} (he : ¬ e.IsGasExhausted) (h : w.Within w') :
      Accounts w (.error e w')
  | exhausted {m : MeterId} {w' : World} (h : w.Exhausts m w') :
      Accounts w (.error (.error (.gasExhausted (w.meter m).limits.gas)) w')

/-- However a run ends, no meter is charged more than one step beyond its limit. -/
theorem Accounts.gas_le {w : World} {α : Type} {r : EStateM.Result Stop World α}
    (h : Accounts w r) (m : MeterId) : (w.meter m).gas ≤ (r.state.meter m).gas ∧
      (r.state.meter m).gas ≤ max (w.meter m).gas (w.meter m).limits.gas + 1 := by
  cases h with
  | ok h => exact ⟨(h m).1, (h m).2.trans (Nat.le_succ _)⟩
  | error _ h => exact ⟨(h m).1, (h m).2.trans (Nat.le_succ _)⟩
  | @exhausted m' _ h =>
    by_cases hm : m = m'
    · subst hm
      exact ⟨h.lt.1.le, h.past.le⟩
    · exact ⟨(h.others m hm).1, (h.others m hm).2.trans (Nat.le_succ _)⟩

/-- Every run of `x` stays within the limits of all meters or fails at the first step that does
not. -/
structure Accounted {α : Type} (x : EvalM α) : Prop where
  balanced : Balanced x
  accounts : ∀ w : World, Accounts w (x w)

variable {α β : Type} {x : EvalM α}

/-- What a run does in a world that has charged the meters within their limits. -/
theorem Accounts.after {w w' : World} {r : EStateM.Result Stop World α} (hw : w.Within w')
    (hs : w.SameAllowance w') (h : Accounts w' r) : Accounts w r := by
  cases h with
  | ok h => exact .ok (hw.trans hs h)
  | error he h => exact .error he (hw.trans hs h)
  | exhausted h =>
    rw [hs.limits_eq]
    exact .exhausted (hw.exhausts hs h)

theorem Accounted.of_ok {k : World → World} {a : World → α} (hx : ∀ w, x w = .ok (a w) (k w))
    (hm : ∀ w, (k w).meters = w.meters) : Accounted x := by
  have hmeter (w : World) (m : MeterId) : (k w).meter m = w.meter m := by
    rw [World.meter, World.meter, hm]
  constructor
  · intro w
    rw [hx]
    exact .of_meters_eq (hm w)
  · intro w
    rw [hx]
    exact .ok (.of_gas_eq fun m => by rw [hmeter])

theorem Accounted.bind {k : α → EvalM β} (hx : Accounted x) (hk : ∀ a, Accounted (k a)) :
    Accounted (x >>= k) := by
  refine ⟨hx.balanced.bind fun a => (hk a).balanced, ?_⟩
  intro w
  have hs := hx.balanced w
  have hw := hx.accounts w
  rw [bind_run]
  cases h : x w with
  | ok a w' =>
    rw [h] at hs hw
    cases hw with
    | ok hwithin => exact ((hk a).accounts w').after hwithin hs
  | error e w' =>
    rw [h] at hw
    cases hw with
    | error he hwithin => exact .error he hwithin
    | exhausted hexhausts => exact .exhausted hexhausts

theorem Accounted.tick (m : MeterId) : Accounted (tick m) := by
  refine ⟨balanced_calls.tick m trivial, ?_⟩
  intro w
  have hlimits : ((w.charge m).meter m).limits = (w.meter m).limits :=
    (w.sameAllowance_charge m).limits_eq m
  rw [tick_run]
  dsimp only
  rw [hlimits]
  split
  · next hpast => exact .exhausted (.charge hpast)
  · next hpast => exact .ok (.charge (Nat.le_of_not_lt hpast))

theorem Accounted.withCall (m : MeterId) (h : Accounted x) : Accounted (withCall m x) := by
  refine ⟨h.balanced.withCall m, ?_⟩
  intro w
  rw [withCall_run]
  split
  · exact .error id (.of_gas_eq fun _ => rfl)
  · have hbody := h.accounts (w.enter m)
    cases hx : x (w.enter m) with
    | ok a w' =>
      rw [hx] at hbody
      cases hbody with
      | ok hwithin => exact .ok hwithin.of_call
    | error e w' =>
      rw [hx] at hbody
      cases hbody with
      | error he hwithin => exact .error he hwithin.of_call
      | exhausted hexhausts =>
        rw [World.limits_enter]
        exact .exhausted hexhausts.of_call

/-- Every run of every tree is accounted for. -/
theorem accounted : Lockstep.Calls fun _ _ x _ => Accounted x where
  pure a := .of_ok (fun _ => rfl) fun _ => rfl
  fail e he := by
    refine ⟨balanced_calls.fail e he, fun w => .error (fun h => he ?_) (.of_gas_eq fun _ => rfl)⟩
    cases e <;> trivial
  weaken _ h := h
  bind hx hk := Accounted.bind hx hk
  read _ h := ⟨fun w => (h w).balanced w, fun w => (h w).accounts w⟩
  tick m _ := Accounted.tick m
  opened := by
    intro α p k l hk
    refine ⟨.opened p fun f => (hk f).balanced, fun w => ?_⟩
    have hopened : w.Within (w.opened p) := .of_gas_eq fun _ => rfl
    exact ((hk w.store.size).accounts (w.opened p)).after hopened (.of_meters_eq rfl)
  append f name v := .of_ok (fun _ => rfl) fun _ => rfl
  replace f name v := .of_ok (fun _ => rfl) fun _ => rfl
  newFunction function _ := .of_ok (fun _ => rfl) fun _ => rfl
  function id := fun h =>
    ⟨fun w => (h (w.function id)).balanced w, fun w => (h (w.function id)).accounts w⟩
  recordPrinted text := .of_ok (fun _ => rfl) fun _ => rfl
  recordLogged v := .of_ok (fun _ => rfl) fun _ => rfl
  withCall m := fun h => h.withCall m
  outOfFuel y := ⟨balanced_calls.outOfFuel y, fun w => .error id (.of_gas_eq fun _ => rfl)⟩

end Eval

/-! ## Owners -/

/-- The meter that calls of a function are charged to, if it is not one of the host's. -/
def Function.meter? (function : Function) : Option MeterId :=
  match function.code with
  | .host _ => none
  | .closure c => some c.meter

theorem Function.meter?_eq_some_iff {function : Function} {m : MeterId} :
    function.meter? = some m ↔ ∃ c, function.code = .closure c ∧ c.meter = m := by
  obtain ⟨name, code⟩ := function
  cases code with
  | host f => simp [meter?]
  | closure c => simp [meter?]

namespace World

/-- The meters that calls of the functions of the world are charged to. -/
def owners (w : World) : Finset MeterId := (w.functions.toList.filterMap Function.meter?).toFinset

/-- The functions of the world are charged to meters in `M`. -/
def ChargedIn (M : Finset MeterId) (w : World) : Prop :=
  ∀ id, Eval.ChargedIn (· ∈ M) (w.function id)

/-- How many more calls the meters in `M` allow to be nested. -/
def freeDepthIn (w : World) (M : Finset MeterId) : Nat := ∑ m ∈ M, (w.meter m).freeDepth

variable {w w' : World} {M : Finset MeterId} {m : MeterId}

theorem chargedIn_iff : w.ChargedIn M ↔ w.owners ⊆ M := by
  constructor
  · intro h m hm
    rw [owners, List.mem_toFinset, List.mem_filterMap] at hm
    obtain ⟨function, hmem, hmeter⟩ := hm
    obtain ⟨c, hc, rfl⟩ := Function.meter?_eq_some_iff.mp hmeter
    obtain ⟨id, hid, rfl⟩ := Array.mem_iff_getElem.mp (Array.mem_toList_iff.mp hmem)
    refine h id c ?_
    rw [function_of_lt hid]
    exact hc
  · intro h id c hc
    refine h ?_
    rw [owners, List.mem_toFinset, List.mem_filterMap]
    by_cases hid : id < w.functions.size
    · refine ⟨w.function id, ?_, Function.meter?_eq_some_iff.mpr ⟨c, hc, rfl⟩⟩
      rw [function_of_lt hid]
      exact Array.mem_toList_iff.mpr (Array.getElem_mem hid)
    · rw [function_of_size_le (Nat.le_of_not_lt hid)] at hc
      cases hc

/-- Without meters to be charged, all functions are the host's. -/
theorem code_ne_closure (h : w.owners = ∅) {id : FunctionId} {c : Closure} :
    (w.function id).code ≠ .closure c :=
  fun hc => absurd (chargedIn_iff.mpr h.subset id c hc) (Finset.notMem_empty _)

theorem ChargedIn.of_functions_eq (h : w.ChargedIn M) (hf : w'.functions = w.functions) :
    w'.ChargedIn M := by
  intro id
  rw [World.function, hf]
  exact h id

theorem ChargedIn.withFunction (h : w.ChargedIn M) {function : Function}
    (hf : Eval.ChargedIn (· ∈ M) function) : (w.withFunction function).ChargedIn M := by
  intro id
  rw [function_withFunction]
  split
  · exact hf
  · exact h id

theorem SameAllowance.freeDepthIn_eq (h : w.SameAllowance w') (M : Finset MeterId) :
    w'.freeDepthIn M = w.freeDepthIn M := by
  refine Finset.sum_congr rfl fun m _ => ?_
  rw [Meter.freeDepth, Meter.freeDepth, h.limits_eq, h.depth_eq]

/-- A call uses up one of the calls that its meter allows. -/
theorem freeDepthIn_enter (hm : m ∈ M) (h : (w.meter m).depth < (w.meter m).limits.depth) :
    (w.enter m).freeDepthIn M + 1 = w.freeDepthIn M := by
  have hsize : m < w.meters.size := by
    by_contra hsize
    rw [meter, Array.getD_eq_getD_getElem?, Array.getElem?_eq_none (Nat.le_of_not_lt hsize)] at h
    exact Nat.not_lt_zero _ h
  have hothers : ∑ m' ∈ M.erase m, ((w.enter m).meter m').freeDepth =
      ∑ m' ∈ M.erase m, (w.meter m').freeDepth := by
    refine Finset.sum_congr rfl fun m' hm' => ?_
    rw [enter, meter_modifyMeter, if_neg fun h => Finset.ne_of_mem_erase hm' h.1.symm]
  have hself : ((w.enter m).meter m).freeDepth + 1 = (w.meter m).freeDepth := by
    rw [enter, meter_modifyMeter, if_pos ⟨rfl, hsize⟩]
    simp only [Meter.freeDepth]
    omega
  rw [freeDepthIn, freeDepthIn, ← Finset.add_sum_erase M _ hm, ← Finset.add_sum_erase M _ hm,
    hothers, ← hself]
  omega

end World

namespace Eval

/-- In a world whose functions are charged to meters in `M`, the run leaves the other meters alone,
and the functions that it makes are charged to meters in `M` as well. -/
structure Kept (M : Finset MeterId) {α : Type} (x : EvalM α) : Prop where
  balanced : Balanced x
  chargedIn : ∀ w : World, w.ChargedIn M → (x w).state.ChargedIn M
  others : ∀ w : World, w.ChargedIn M → ∀ m ∉ M, (x w).state.meter m = w.meter m

variable {M : Finset MeterId} {n : Nat} {α β : Type} {x : EvalM α}

namespace Kept

theorem of_state {k : World → World} (hx : ∀ w, (x w).state = k w)
    (hf : ∀ w, (k w).functions = w.functions) (hm : ∀ w, (k w).meters = w.meters) : Kept M x := by
  constructor
  · intro w
    rw [hx]
    exact .of_meters_eq (hm w)
  · intro w hw
    rw [hx]
    exact hw.of_functions_eq (hf w)
  · intro w _ m _
    rw [hx, World.meter, World.meter, hm]

theorem bind {k : α → EvalM β} (hx : Kept M x) (hk : ∀ a, Kept M (k a)) : Kept M (x >>= k) := by
  have hstate (w : World) (hw : w.ChargedIn M) : ((x >>= k) w).state.ChargedIn M ∧
      ∀ m ∉ M, ((x >>= k) w).state.meter m = w.meter m := by
    have hcharged := hx.chargedIn w hw
    have hothers := hx.others w hw
    rw [bind_run]
    cases h : x w with
    | ok a w' =>
      rw [h] at hcharged hothers
      refine ⟨(hk a).chargedIn w' hcharged, fun m hm => ?_⟩
      exact ((hk a).others w' hcharged m hm).trans (hothers m hm)
    | error e w' =>
      rw [h] at hcharged hothers
      exact ⟨hcharged, hothers⟩
  exact ⟨hx.balanced.bind fun a => (hk a).balanced, fun w hw => (hstate w hw).1,
    fun w hw => (hstate w hw).2⟩

theorem tick {m : MeterId} (hm : m ∈ M) : Kept M (tick m) := by
  have hstate (w : World) : (Eval.tick m w).state = w.charge m := by
    rw [tick_run]
    dsimp only
    split <;> rfl
  refine ⟨balanced_calls.tick m trivial, ?_, ?_⟩
  · intro w hw
    rw [hstate]
    exact hw.of_functions_eq rfl
  · intro w _ m' hm'
    rw [hstate, World.charge, World.meter_modifyMeter, if_neg]
    rintro ⟨rfl, -⟩
    exact hm' hm

theorem opened (p : FrameId) {k : FrameId → EvalM α} (hk : ∀ f, Kept M (k f)) :
    Kept M (newFrame p >>= k) := by
  have hopened (w : World) (hw : w.ChargedIn M) : (w.opened p).ChargedIn M :=
    hw.of_functions_eq rfl
  refine ⟨.opened p fun f => (hk f).balanced, ?_, ?_⟩
  · intro w hw
    exact (hk w.store.size).chargedIn (w.opened p) (hopened w hw)
  · intro w hw
    exact (hk w.store.size).others (w.opened p) (hopened w hw)

theorem newFunction {function : Function} (hf : ChargedIn (· ∈ M) function) :
    Kept M (newFunction function) := by
  refine ⟨balanced_calls.newFunction function fun _ _ => trivial, ?_, fun _ _ _ _ => rfl⟩
  intro w hw
  exact hw.withFunction hf

theorem withCall {m : MeterId} (hm : m ∈ M) (h : Kept M x) : Kept M (withCall m x) := by
  have hstate (w : World) (hw : w.ChargedIn M) : (Eval.withCall m x w).state.ChargedIn M ∧
      ∀ m' ∉ M, (Eval.withCall m x w).state.meter m' = w.meter m' := by
    rcases Eval.withCall_state m x w with hs | hs
    · rw [hs]
      exact ⟨hw, fun _ _ => rfl⟩
    · have henter : (w.enter m).ChargedIn M := hw.of_functions_eq rfl
      rw [hs]
      refine ⟨(h.chargedIn _ henter).of_functions_eq rfl, fun m' hm' => ?_⟩
      have hne : m ≠ m' := fun heq => hm' (heq ▸ hm)
      rw [World.leave, World.meter_modifyMeter, if_neg fun heq => hne heq.1,
        h.others _ henter m' hm', World.enter, World.meter_modifyMeter,
        if_neg fun heq => hne heq.1]
  exact ⟨h.balanced.withCall m, fun w hw => (hstate w hw).1, fun w hw => (hstate w hw).2⟩

end Kept

/-- The run keeps to the meters in `M`, and fuel for as many calls as these still allow is never
used up. -/
structure Contained (M : Finset MeterId) (n : Nat) {α : Type} (x : EvalM α) : Prop where
  kept : Kept M x
  ne_outOfFuel : ∀ w w' : World, w.ChargedIn M → w.freeDepthIn M ≤ n →
    x w ≠ .error .outOfFuel w'

namespace Contained

theorem of_ok {k : World → World} {a : World → α} (hx : ∀ w, x w = .ok (a w) (k w))
    (hf : ∀ w, (k w).functions = w.functions) (hm : ∀ w, (k w).meters = w.meters) :
    Contained M n x := by
  refine ⟨.of_state (fun w => congrArg _ (hx w)) hf hm, ?_⟩
  intro w w' _ _ h
  rw [hx] at h
  cases h

theorem bind {k : α → EvalM β} (hx : Contained M n x) (hk : ∀ a, Contained M n (k a)) :
    Contained M n (x >>= k) := by
  refine ⟨hx.kept.bind fun a => (hk a).kept, ?_⟩
  intro w w₁ hw hfree hout
  rw [bind_run] at hout
  have hs := hx.kept.balanced w
  have hcharged := hx.kept.chargedIn w hw
  cases h : x w with
  | ok a w' =>
    rw [h] at hout hs hcharged
    exact (hk a).ne_outOfFuel w' w₁ hcharged ((hs.freeDepthIn_eq M).trans_le hfree) hout
  | error e w' =>
    rw [h] at hout
    cases hout
    exact hx.ne_outOfFuel w w₁ hw hfree h

theorem withCall {m : MeterId} (hm : m ∈ M) (h : Contained M n x) :
    Contained M (n + 1) (withCall m x) := by
  refine ⟨h.kept.withCall hm, ?_⟩
  intro w w' hw hfree hout
  rw [withCall_run] at hout
  split at hout
  · cases hout
  · next hlt =>
    have henter := World.freeDepthIn_enter hm (Nat.lt_of_not_le hlt)
    have hcharged : (w.enter m).ChargedIn M := hw.of_functions_eq rfl
    cases hx : x (w.enter m) with
    | ok a w₁ =>
      rw [hx] at hout
      cases hout
    | error e w₁ =>
      rw [hx] at hout
      cases hout
      exact h.ne_outOfFuel (w.enter m) w₁ hcharged (by omega) hx

/-- No call begins where none is allowed. -/
theorem withCall_zero {m : MeterId} (hm : m ∈ M) (h : Kept M x) :
    Contained M 0 (Eval.withCall m x) := by
  refine ⟨h.withCall hm, ?_⟩
  intro w w' hw hfree hout
  rw [withCall_run] at hout
  split at hout
  · cases hout
  · next hlt =>
    have henter := World.freeDepthIn_enter hm (Nat.lt_of_not_le hlt)
    omega

end Contained

theorem contained (M : Finset MeterId) (n : Nat) :
    Lockstep (· ∈ M) fun _ _ x _ => Contained M n x where
  pure a := .of_ok (fun _ => rfl) (fun _ => rfl) fun _ => rfl
  fail e he := ⟨.of_state (fun _ => rfl) (fun _ => rfl) fun _ => rfl, fun w w' _ _ h => by cases h⟩
  weaken _ h := h
  bind hx hk := Contained.bind hx hk
  read _ h := ⟨⟨fun w => (h w).kept.balanced w, fun w => (h w).kept.chargedIn w,
    fun w => (h w).kept.others w⟩, fun w => (h w).ne_outOfFuel w⟩
  tick m hm := by
    refine ⟨.tick hm, ?_⟩
    intro w w' _ _ h
    rw [tick_run] at h
    dsimp only at h
    split at h <;> cases h
  opened := by
    intro α p k l hk
    refine ⟨.opened p fun f => (hk f).kept, ?_⟩
    intro w w' hw
    exact (hk w.store.size).ne_outOfFuel (w.opened p) w' (hw.of_functions_eq rfl)
  append f name v := .of_ok (fun _ => rfl) (fun _ => rfl) fun _ => rfl
  replace f name v := .of_ok (fun _ => rfl) (fun _ => rfl) fun _ => rfl
  newFunction function hf := ⟨.newFunction hf, fun w w' _ _ h => by cases h⟩
  function id := fun h => ⟨⟨fun w => (h (w.function id)).kept.balanced w,
    fun w => (h (w.function id)).kept.chargedIn w, fun w => (h (w.function id)).kept.others w⟩,
    fun w => (h (w.function id)).ne_outOfFuel w⟩
  recordPrinted text := .of_ok (fun _ => rfl) (fun _ => rfl) fun _ => rfl
  recordLogged v := .of_ok (fun _ => rfl) (fun _ => rfl) fun _ => rfl

/-- A call is charged to the meter of the function that is called. -/
theorem contained_call (M : Finset MeterId) (n : Nat) (id : FunctionId) (arguments : List Value) :
    Contained M n (call n id arguments) := by
  -- the function is one of the world's, so its meter is in `M`
  have hcall {n : Nat} (hbody : ∀ c : Closure, c.meter ∈ M → ∀ arguments,
      Contained M n (withCall c.meter (runBody n c arguments))) (id : FunctionId)
      (arguments : List Value) : Contained M n (call n id arguments) := by
    have happly (w : World) (hw : w.ChargedIn M) :
        Contained M n (applyFunction n (w.function id) arguments) :=
      (contained M n).applyFunction (k := n) (fun c arguments hc => hbody c (hw id c hc) arguments)
        arguments
    rw [call_eq]
    refine ⟨⟨?_, fun w hw => (happly w hw).kept.chargedIn w hw,
      fun w hw => (happly w hw).kept.others w hw⟩,
      fun w w' hw => (happly w hw).ne_outOfFuel w w' hw⟩
    rw [← call_eq]
    exact (call_fueled n id arguments).balanced
  induction n generalizing id arguments with
  | zero =>
    refine hcall (fun c hc arguments => .withCall_zero hc ?_) id arguments
    exact .of_state (fun _ => rfl) (fun _ => rfl) fun _ => rfl
  | succ n ih =>
    refine hcall (fun c hc arguments => .withCall hc ?_) id arguments
    exact (contained M n).runBody (k := n) ih hc arguments

/-- A run that does not get to the end of its fuel is the same with more. -/
theorem extended : Lockstep.Calls fun _ _ x y =>
    ∀ w : World, (x w).Avoids (· = .outOfFuel) → y w = x w where
  pure _ := fun _ _ => rfl
  fail _ _ := fun _ _ => rfl
  weaken _ h := h
  bind := by
    intro α β g x y k l hx hk w hfuel
    have hxy := hx w (avoids_of_bind hfuel)
    rw [bind_run] at hfuel
    rw [bind_run, bind_run, hxy]
    cases h : x w with
    | ok a w' =>
      rw [h] at hfuel
      exact hk a w' hfuel
    | error e w' => rfl
  read := by
    intro α g x y hy h w hfuel
    exact h w w hfuel
  tick _ _ := fun _ _ => rfl
  opened := by
    intro α p k l hk w hfuel
    exact hk w.store.size (w.opened p) hfuel
  append _ _ _ := fun _ _ => rfl
  replace _ _ _ := fun _ _ => rfl
  newFunction _ _ := fun _ _ => rfl
  function id := fun h w hfuel => h (w.function id) w hfuel
  recordPrinted _ := fun _ _ => rfl
  recordLogged _ := fun _ _ => rfl
  withCall := by
    intro α m x y h w hfuel
    rw [withCall_run] at hfuel
    rw [withCall_run, withCall_run]
    split at hfuel
    · next hfull => rw [if_pos hfull, if_pos hfull]
    · next hfull =>
      rw [EStateM.Result.avoids_mapState] at hfuel
      rw [if_neg hfull, if_neg hfull, h _ hfuel]
  outOfFuel y := fun w hfuel => absurd rfl (hfuel _ _ rfl)

end Eval

end ObjectLang
