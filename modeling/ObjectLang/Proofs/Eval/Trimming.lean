import ObjectLang.Proofs.Eval.Limits

/-!
# Runs of trimmed programs

A program and the trimmed program run side by side. They open the same frames, make functions with
the same numbers, and print and log the same, so that their worlds differ in two respects only:
functions have trimmed bodies, and where parentheses are left out less gas is used. -/

namespace ObjectLang

/-- The meter `μ'` counts the same active calls as `μ` under the same limits. It counts no more
steps, and as many where parentheses stay. -/
structure Meter.Spares (t : Trimming) (μ μ' : Meter) : Prop where
  limits_eq : μ'.limits = μ.limits
  depth_eq : μ'.depth = μ.depth
  gas_le : μ'.gas ≤ μ.gas
  gas_eq : t.groups = false → μ'.gas = μ.gas

theorem Meter.Spares.refl {t : Trimming} {μ : Meter} : μ.Spares t μ :=
  ⟨rfl, rfl, Nat.le_refl _, fun _ => rfl⟩

/-- The world `w'` is `w` with trimmed functions, in which less gas may have been used if
parentheses are left out. -/
structure World.Trims (t : Trimming) (w w' : World) : Prop where
  store_eq : w'.store = w.store
  functions_eq : w'.functions = w.functions.map (Function.trim t)
  printed_eq : w'.printed = w.printed
  logged_eq : w'.logged = w.logged
  size_eq : w'.meters.size = w.meters.size
  spares : ∀ m, (w.meter m).Spares t (w'.meter m)
  /-- Targets of assignments stay what they are. -/
  fits : ∀ id, t.Fits (w.function id).targets

namespace World

variable {t : Trimming} {w w' : World}

namespace Trims

theorem function_eq (h : w.Trims t w') (id : FunctionId) :
    w'.function id = (w.function id).trim t := by
  have hdefault : (default : Function).trim t = default := rfl
  rw [World.function, World.function, h.functions_eq, Array.getD_eq_getD_getElem?,
    Array.getD_eq_getD_getElem?, Array.getElem?_map]
  cases w.functions[id]? with
  | none => exact hdefault.symm
  | some function => rfl

theorem functionName_eq (h : w.Trims t w') : w.functionName = w'.functionName := by
  funext id
  rw [World.functionName, World.functionName, h.function_eq, Function.name_trim]

theorem sameAllowance (h : w.Trims t w') : w.SameAllowance w' :=
  ⟨h.size_eq, fun m => (h.spares m).limits_eq, fun m => (h.spares m).depth_eq⟩

/-- Where parentheses stay, the functions are all that is different. -/
theorem eq_trim (h : w.Trims t w') (ht : t.groups = false) : w' = w.trim t := by
  refine ext_meters h.store_eq h.functions_eq (Array.ext h.size_eq fun m hm hm' => ?_)
    h.printed_eq h.logged_eq
  obtain ⟨hlimits, hdepth, -, hgas⟩ := h.spares m
  have hmeters : (w.trim t).meters[m] = w.meter m := meters_getElem w hm'
  rw [meters_getElem w' hm, hmeters]
  cases hμ : w.meter m
  cases hμ' : w'.meter m
  rw [hμ, hμ'] at hlimits hdepth hgas
  cases hlimits
  cases hdepth
  cases hgas ht
  rfl

/-- The same change of the frames. -/
theorem mapStore (h : w.Trims t w') (g : Store Value → Store Value) :
    World.Trims t { w with store := g w.store } { w' with store := g w'.store } :=
  { h with store_eq := congrArg g h.store_eq }

theorem withFunction (h : w.Trims t w') {function : Function} (hf : t.Fits function.targets) :
    (w.withFunction function).Trims t (w'.withFunction (function.trim t)) := by
  have hfunctions : w'.functions.push (function.trim t) =
      (w.functions.push function).map (Function.trim t) := by
    rw [h.functions_eq, Array.map_push]
  refine { h with functions_eq := hfunctions, fits := fun id => ?_ }
  rw [function_withFunction]
  split
  · exact hf
  · exact h.fits id

/-- The same change of a meter. -/
theorem modifyMeter (h : w.Trims t w') (m : MeterId) {g : Meter → Meter}
    (hg : ∀ μ μ' : Meter, μ.Spares t μ' → (g μ).Spares t (g μ')) :
    (w.modifyMeter m g).Trims t (w'.modifyMeter m g) := by
  have hsize : (w'.modifyMeter m g).meters.size = (w.modifyMeter m g).meters.size := by
    rw [size_modifyMeter, size_modifyMeter, h.size_eq]
  refine { h with size_eq := hsize, spares := fun m' => ?_ }
  rw [meter_modifyMeter, meter_modifyMeter, h.size_eq]
  split
  · exact hg _ _ (h.spares m')
  · exact h.spares m'

theorem charge (h : w.Trims t w') (m : MeterId) : (w.charge m).Trims t (w'.charge m) :=
  h.modifyMeter m fun _ _ hμ => { hμ with
    gas_le := Nat.succ_le_succ hμ.gas_le
    gas_eq := fun ht => congrArg (· + 1) (hμ.gas_eq ht) }

theorem enter (h : w.Trims t w') (m : MeterId) : (w.enter m).Trims t (w'.enter m) :=
  h.modifyMeter m fun _ _ hμ => { hμ with depth_eq := congrArg (· + 1) hμ.depth_eq }

theorem leave (h : w.Trims t w') (m : MeterId) : (w.leave m).Trims t (w'.leave m) :=
  h.modifyMeter m fun _ _ hμ => { hμ with depth_eq := congrArg (· - 1) hμ.depth_eq }

/-- Parentheses that are left out are charged to the first world only. -/
theorem ungroup (h : w.Trims t w') (ht : t.groups = true) (m : MeterId) :
    (w.charge m).Trims t w' := by
  have hkept : t.groups ≠ false := fun hgroups => by rw [ht] at hgroups; cases hgroups
  refine { h with size_eq := h.size_eq.trans (size_modifyMeter w m _).symm, spares := fun m' => ?_ }
  have hμ := h.spares m'
  rw [World.charge, meter_modifyMeter]
  split
  · exact { hμ with
      gas_le := Nat.le_succ_of_le hμ.gas_le
      gas_eq := fun hgroups => absurd hgroups hkept }
  · exact hμ

theorem withMeter (h : w.Trims t w') (limits : Limits) :
    (w.withMeter limits).Trims t (w'.withMeter limits) := by
  have hsize : (w'.withMeter limits).meters.size = (w.withMeter limits).meters.size := by
    rw [World.withMeter, World.withMeter, Array.size_push, Array.size_push, h.size_eq]
  refine { h with size_eq := hsize, spares := fun m => ?_ }
  have hμ := h.spares m
  simp only [World.meter, World.withMeter, Array.getD_eq_getD_getElem?, Array.getElem?_push,
    h.size_eq] at hμ ⊢
  split
  · exact Meter.Spares.refl
  · exact hμ

end Trims

/-- Where parentheses stay, every world may be trimmed. -/
theorem trims_trim (ht : t.groups = false) (w : World) : w.Trims t (w.trim t) where
  store_eq := rfl
  functions_eq := rfl
  printed_eq := rfl
  logged_eq := rfl
  size_eq := rfl
  spares _ := Meter.Spares.refl
  fits _ := Trimming.fits_of_groups ht _

end World

namespace Eval

/-- From worlds that differ by trimming, `y` does what `x` does; if parentheses are left out, as
long as `x` does not run out of gas. -/
def Trims (t : Trimming) {α : Type} (x y : EvalM α) : Prop :=
  ∀ w w' : World, w.Trims t w' → (t.groups = true → (x w).Avoids Stop.IsGasExhausted) →
    (x w).Alike (World.Trims t) (y w')

variable {t : Trimming}

namespace Trims

variable {α β : Type} {x y : EvalM α}

theorem bind {k l : α → EvalM β} (hx : Trims t x y) (hk : ∀ a, Trims t (k a) (l a)) :
    Trims t (x >>= k) (y >>= l) := by
  intro w w' hw hok
  have halike := hx w w' hw fun ht => avoids_of_bind (hok ht)
  rw [bind_run, bind_run]
  rw [bind_run] at hok
  generalize x w = r at halike hok
  generalize y w' = r' at halike
  cases halike with
  | ok h => exact hk _ _ _ h hok
  | error h => exact .error h

theorem read {k l : World → EvalM α}
    (hl : ∀ w w' : World, w.store = w'.store → w.functionName = w'.functionName → l w = l w')
    (h : ∀ w, Trims t (k w) (l w)) : Trims t (get >>= k) (get >>= l) := by
  intro w w' hw hok
  rw [get_bind_run, get_bind_run, ← hl w w' hw.store_eq.symm hw.functionName_eq]
  exact h w w w' hw hok

theorem opened (p : FrameId) {k l : FrameId → EvalM α} (hk : ∀ f, Trims t (k f) (l f)) :
    Trims t (newFrame p >>= k) (newFrame p >>= l) := by
  intro w w' hw hok
  have hframe : w'.store.size = w.store.size := congrArg Store.size hw.store_eq
  rw [bind_run_ok (newFrame_run p w), bind_run_ok (newFrame_run p w'), hframe]
  exact hk w.store.size _ _ (hw.mapStore fun store => (store.newFrame (some p)).2) hok

/-- A step is charged in both runs. The second has used no more gas, and so gets as far. -/
theorem tick (m : MeterId) : Trims t (Eval.tick m) (Eval.tick m) := by
  intro w w' hw hok
  have hcharged := hw.charge m
  obtain ⟨hlimits, -, hle, heq⟩ := hcharged.spares m
  rw [tick_run] at hok
  rw [tick_run, tick_run]
  dsimp only at hok ⊢
  rw [hlimits]
  by_cases hpast : ((w.charge m).meter m).limits.gas < ((w.charge m).meter m).gas
  · rw [if_pos hpast] at hok ⊢
    have hgroups : t.groups = false := by
      rw [Bool.eq_false_iff]
      intro ht
      exact absurd trivial (hok ht _ _ rfl)
    rw [heq hgroups, if_pos hpast]
    exact .error hcharged
  · rw [if_neg hpast, if_neg (by omega)]
    exact .ok hcharged

/-- Parentheses cost a step and nothing else. -/
theorem ungroup (m : MeterId) (ht : t.groups = true) (hx : Trims t x y) :
    Trims t (Eval.tick m >>= fun _ => x) y := by
  intro w w' hw hok
  have hticked := avoids_of_bind (hok ht)
  rw [bind_run] at hok ⊢
  rw [tick_run] at hok hticked ⊢
  dsimp only at hok hticked ⊢
  split at hticked
  · exact absurd trivial (hticked _ _ rfl)
  · next hwithin =>
    rw [if_neg hwithin] at hok ⊢
    exact hx _ _ (hw.ungroup ht m) hok

theorem newFunction {function : Function} (hf : t.Fits function.targets) :
    Trims t (newFunction function) (Eval.newFunction (function.trim t)) := by
  intro w w' hw _
  have hid : w'.functions.size = w.functions.size := by
    rw [hw.functions_eq, Array.size_map]
  have hrun : Eval.newFunction (function.trim t) w' =
      .ok w.functions.size (w'.withFunction (function.trim t)) := hid ▸ rfl
  rw [hrun]
  exact .ok (hw.withFunction hf)

theorem withCall (m : MeterId) (hx : Trims t x y) : Trims t (withCall m x) (Eval.withCall m y) := by
  intro w w' hw hok
  obtain ⟨hlimits, hdepth, -, -⟩ := hw.spares m
  rw [withCall_run] at hok
  rw [withCall_run, withCall_run, hlimits, hdepth]
  by_cases hfull : (w.meter m).limits.depth ≤ (w.meter m).depth
  · rw [if_pos hfull, if_pos hfull]
    exact .error hw
  · rw [if_neg hfull] at hok ⊢
    rw [if_neg hfull]
    simp only [EStateM.Result.avoids_mapState] at hok
    exact (hx _ _ (hw.enter m) hok).mapState fun w w' hw => hw.leave m

end Trims

theorem trims_hosting (t : Trimming) : Hosting fun _ _ x y => Trims t x y where
  pure _ := fun _ _ hw _ => .ok hw
  fail _ _ := fun _ _ hw _ => .error hw
  weaken _ h := h
  bind hx hk := hx.bind hk
  read hl h := .read hl h
  opened p := fun hk => .opened p hk
  append f name v := fun _ _ hw _ => .ok (hw.mapStore (·.append f name v))
  replace f name v := fun _ _ hw _ => .ok (hw.mapStore (·.replace f name v))
  recordPrinted text := fun _ _ hw _ =>
    .ok { hw with printed_eq := congrArg (·.push text) hw.printed_eq }
  recordLogged v := fun _ _ hw _ =>
    .ok { hw with logged_eq := congrArg (·.push v) hw.logged_eq }

/-- Evaluation of a tree and of the trimmed tree go side by side. -/
theorem trims (t : Trimming) :
    Treewise t (fun _ => True) (fun _ _ x y => Trims t x y) (Trims t) :=
  { trims_hosting t with
    tick := fun m _ => .tick m
    newFunction := fun _ _ hf => .newFunction hf
    ungroup := fun m _ _ ht _ hx => hx.ungroup m ht
    charged := fun m _ _ _ hx => .bind (.tick m) fun _ => hx
    after := .bind }

/-- A call runs the trimmed body of the function in the second world. -/
theorem trims_call (n : Nat) (id : FunctionId) (arguments : List Value) :
    Trims t (call n id arguments) (call n id arguments) := by
  have hcall {n : Nat} (hbody : ∀ c : Closure, ∀ arguments, t.Fits (targetsOfStmts c.body) →
      Trims t (runBody n c arguments) (runBody n (c.trim t) arguments)) (id : FunctionId)
      (arguments : List Value) : Trims t (call n id arguments) (call n id arguments) := by
    intro w w' hw
    rw [call_eq, get_bind_run, get_bind_run, hw.function_eq]
    have hfits := hw.fits id
    generalize w.function id = function at hfits
    obtain ⟨name, code⟩ := function
    cases code with
    | host f => exact (trims_hosting t).host name f arguments w w' hw
    | closure c =>
      have hrequired := (trims t).requireArguments name c.bindings arguments
      exact hrequired.bind (fun _ => (hbody c arguments hfits).withCall c.meter) w w' hw
  induction n generalizing id arguments with
  | zero =>
    refine hcall (fun c arguments _ w w' hw _ => ?_) id arguments
    exact .error hw
  | succ n ih =>
    refine hcall (fun c arguments hc => ?_) id arguments
    exact (trims t).runBody ih trivial hc arguments

end Eval

/-- A program and the trimmed program end alike. -/
theorem Program.runWith_trim {t : Trimming} (p : Program) (hp : t.Fits p.targets) (f : FrameId)
    (limits : Limits) {w w' : World} (hw : w.Trims t w')
    (hok : t.groups = true → (p.runWith limits f w).Avoids Stop.IsGasExhausted) :
    (p.runWith limits f w).Alike (World.Trims t) ((p.trim t).runWith limits f w') := by
  rw [runWith_eq] at hok
  rw [runWith_eq, runWith_eq, hw.sameAllowance.freeDepth_eq, hw.size_eq]
  exact (Eval.trims t).program (Eval.trims_call _) (c := ⟨f, w.meters.size⟩) trivial p hp _ _
    (hw.withMeter limits) hok

end ObjectLang
