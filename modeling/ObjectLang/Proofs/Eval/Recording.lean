import ObjectLang.Proofs.Eval.Charging

/-!
# What a run records

Programs print and log by calling host functions. A call of a host function records at most one text
or value, and takes no step of its own, but the expression that calls has been charged a step
before. So a run records no more than it takes steps, as long as all of its steps are charged to one
meter. The step of an expression is the credit on which its call records. -/

namespace ObjectLang

/-- How many texts and values were printed and logged. -/
def World.recorded (w : World) : Nat := w.printed.size + w.logged.size

namespace Eval

/-- If all functions are charged to the meter `m`, the run records at most `credit` texts and values
more than it takes steps. -/
structure Recording (m : MeterId) (credit : Nat) {α : Type} (x : EvalM α) : Prop where
  kept : Kept {m} x
  recorded_le : ∀ w : World, w.ChargedIn {m} → m < w.meters.size →
    (x w).state.recorded + (w.meter m).gas ≤ w.recorded + ((x w).state.meter m).gas + credit

variable {m : MeterId} {credit : Nat}

namespace Recording

variable {α β : Type} {x : EvalM α}

/-- A step that leaves functions and meters alone. -/
theorem of_state {k : World → World} (hx : ∀ w, (x w).state = k w)
    (hf : ∀ w, (k w).functions = w.functions) (hm : ∀ w, (k w).meters = w.meters)
    (hr : ∀ w, (k w).recorded ≤ w.recorded + credit) : Recording m credit x := by
  refine ⟨.of_state hx hf hm, fun w _ _ => ?_⟩
  have hmeter : (k w).meter m = w.meter m := by rw [World.meter, World.meter, hm]
  have hrecorded := hr w
  rw [hx, hmeter]
  omega

theorem mono {credit' : Nat} (hx : Recording m credit x) (h : credit ≤ credit') :
    Recording m credit' x :=
  ⟨hx.kept, fun w hw hm => (hx.recorded_le w hw hm).trans (Nat.add_le_add_left h _)⟩

theorem bind {credit' : Nat} {k : α → EvalM β} (hx : Recording m credit x)
    (hk : ∀ a, Recording m credit' (k a)) : Recording m (credit + credit') (x >>= k) := by
  refine ⟨hx.kept.bind fun a => (hk a).kept, ?_⟩
  intro w hw hm
  have hfirst := hx.recorded_le w hw hm
  have hcharged := hx.kept.chargedIn w hw
  have hsize := (hx.kept.balanced w).size_eq
  rw [bind_run]
  cases h : x w with
  | error e w' =>
    rw [h] at hfirst
    exact hfirst.trans (Nat.add_le_add_left (Nat.le_add_right _ _) _)
  | ok a w' =>
    rw [h] at hfirst hcharged hsize
    have hrest := (hk a).recorded_le w' hcharged (Nat.lt_of_lt_of_eq hm hsize.symm)
    rw [EStateM.Result.state_ok] at hfirst
    dsimp only
    omega

theorem read {k : World → EvalM α} (hk : ∀ w, Recording m credit (k w)) :
    Recording m credit (get >>= k) :=
  ⟨⟨fun w => (hk w).kept.balanced w, fun w => (hk w).kept.chargedIn w,
    fun w => (hk w).kept.others w⟩, fun w => (hk w).recorded_le w⟩

theorem opened (p : FrameId) {k : FrameId → EvalM α} (hk : ∀ f, Recording m credit (k f)) :
    Recording m credit (newFrame p >>= k) := by
  refine ⟨.opened p fun f => (hk f).kept, ?_⟩
  intro w hw hm
  exact (hk w.store.size).recorded_le (w.opened p) (hw.of_functions_eq rfl) hm

/-- A step that is charged pays for a text or a value. -/
theorem charged (hx : Recording m 1 x) : Recording m 0 (Eval.tick m >>= fun _ => x) := by
  have htick : Kept {m} (Eval.tick m) := .tick (Finset.mem_singleton_self m)
  refine ⟨htick.bind fun _ => hx.kept, ?_⟩
  intro w hw hm
  have hgas : ((w.charge m).meter m).gas = (w.meter m).gas + 1 := by
    rw [World.gas_charge, if_pos ⟨rfl, hm⟩]
  have hrecorded : (w.charge m).recorded = w.recorded := rfl
  have hrun := tick_run m w
  by_cases hpast : ((w.charge m).meter m).limits.gas < ((w.charge m).meter m).gas
  · rw [if_pos hpast] at hrun
    rw [bind_run_error hrun, EStateM.Result.state_error, hgas, hrecorded]
    omega
  · rw [if_neg hpast] at hrun
    have hsize := Nat.lt_of_lt_of_eq hm (w.sameAllowance_charge m).size_eq.symm
    have hrest := hx.recorded_le (w.charge m) (hw.of_functions_eq rfl) hsize
    rw [bind_run_ok hrun]
    omega

theorem withCall (hx : Recording m 0 x) : Recording m 0 (Eval.withCall m x) := by
  refine ⟨.withCall (Finset.mem_singleton_self m) hx.kept, ?_⟩
  intro w hw hm
  rcases withCall_state m x w with hs | hs
  · rw [hs]
    omega
  · have hsize : m < (w.enter m).meters.size :=
      Nat.lt_of_lt_of_eq hm (World.size_modifyMeter w m _).symm
    have hbody := hx.recorded_le (w.enter m) (hw.of_functions_eq rfl) hsize
    have hentered : (w.enter m).recorded = w.recorded := rfl
    have hleft : ((x (w.enter m)).state.leave m).recorded = (x (w.enter m)).state.recorded := rfl
    rw [hs, hleft, World.gas_leave]
    rw [hentered, World.gas_enter] at hbody
    exact hbody

end Recording

/-- Evaluation of a tree records no more than it takes steps, if each call records at most one text
or value more than that. -/
theorem recording (m : MeterId) :
    Treewise {} (· ∈ ({m} : Finset MeterId)) (fun _ _ x _ => Recording m 0 x)
      (fun x _ => Recording m 1 x) where
  pure _ := .of_state (fun _ => rfl) (fun _ => rfl) (fun _ => rfl) fun _ => le_rfl
  fail _ _ := .of_state (fun _ => rfl) (fun _ => rfl) (fun _ => rfl) fun _ => le_rfl
  weaken _ h := h
  bind hx hk := hx.bind hk
  read _ h := .read h
  opened p := fun hk => .opened p hk
  append f name v := .of_state (fun _ => rfl) (fun _ => rfl) (fun _ => rfl) fun _ => le_rfl
  replace f name v := .of_state (fun _ => rfl) (fun _ => rfl) (fun _ => rfl) fun _ => le_rfl
  tick m' hm' := by
    obtain rfl := Finset.mem_singleton.mp hm'
    have hpure : Recording m' 1 (Pure.pure () : EvalM Unit) :=
      .of_state (fun _ => rfl) (fun _ => rfl) (fun _ => rfl) fun _ => Nat.le_succ _
    have h := hpure.charged
    rwa [bind_pure] at h
  newFunction function hf _ := ⟨.newFunction hf, fun _ _ _ => le_rfl⟩
  ungroup _ := fun hgroups => by cases hgroups
  charged m' _ _ hm' hx := by
    obtain rfl := Finset.mem_singleton.mp hm'
    exact hx.charged
  after hx hk := by
    have h := hx.bind hk
    rwa [Nat.zero_add] at h

/-- A call of a host function records at most one text or value. -/
theorem recording_host (name : String) (f : HostFunction) (arguments : List Value) :
    Recording m 1 (host name f arguments) := by
  have hone := (recording m).oneArgument name arguments
  have hpure (v : Value) : Recording m 0 (Pure.pure v : EvalM Value) := (recording m).pure v
  have hfail {e : EvalError} (he : ¬ e.IsLimit) : Recording m 0 (fail e : EvalM Value) :=
    (recording m).fail e he
  have hprinted (text : String) : Recording m 1 (recordPrinted text) := by
    refine .of_state (k := fun w => { w with printed := w.printed.push text }) (fun _ => rfl)
      (fun _ => rfl) (fun _ => rfl) fun w => ?_
    simp only [World.recorded, Array.size_push]
    omega
  have hlogged (v : Value) : Recording m 1 (recordLogged v) := by
    refine .of_state (k := fun w => { w with logged := w.logged.push v }) (fun _ => rfl)
      (fun _ => rfl) (fun _ => rfl) fun w => ?_
    simp only [World.recorded, Array.size_push]
    omega
  cases f with
  | log => exact hone.bind fun v => (hlogged v).bind fun _ => hpure v
  | print => exact hone.bind fun v => .read fun w => (hprinted _).bind fun _ => hpure _
  | list => exact (hpure _).mono (Nat.le_succ 0)
  | range =>
    refine Recording.mono ?_ (Nat.le_succ 0)
    unfold host
    dsimp only
    split
    · exact hpure _
    · exact hfail id
    · exact hfail id
  | nothing =>
    refine Recording.mono ?_ (Nat.le_succ 0)
    unfold host
    dsimp only
    split
    · exact hpure _
    · exact hfail id
  | fail =>
    have hread : Recording m 0 (host name .fail arguments) :=
      hone.bind fun v => .read fun w => hfail id
    exact hread.mono (Nat.le_succ 0)
  | count => exact (hpure _).mono (Nat.le_succ 0)

/-- A call records at most one text or value more than it takes steps. -/
theorem recording_call (n : Nat) (id : FunctionId) (arguments : List Value) :
    Recording m 1 (call n id arguments) := by
  -- the function is one of the world's, so it is charged to `m`
  have hcall {n : Nat} (hbody : ∀ c : Closure, ∀ arguments, c.meter = m →
      Recording m 0 (runBody n c arguments)) (id : FunctionId) (arguments : List Value) :
      Recording m 1 (call n id arguments) := by
    refine ⟨(contained_call {m} n id arguments).kept, fun w hw hm => ?_⟩
    have happly : Recording m 1 (applyFunction n (w.function id) arguments) := by
      have hmeter : ChargedIn (· ∈ ({m} : Finset MeterId)) (w.function id) := hw id
      generalize w.function id = function at hmeter
      obtain ⟨name, code⟩ := function
      cases code with
      | host f => exact recording_host name f arguments
      | closure c =>
        have hm : c.meter = m := Finset.mem_singleton.mp (hmeter c rfl)
        have hactive := (hbody c arguments hm).withCall
        rw [← hm] at hactive ⊢
        have hcalled := ((recording c.meter).requireArguments name c.bindings arguments).bind
          fun _ => hactive
        exact hcalled.mono (Nat.le_succ 0)
    rw [call_eq]
    exact happly.recorded_le w hw hm
  induction n generalizing id arguments with
  | zero =>
    refine hcall (fun c arguments _ => ?_) id arguments
    exact .of_state (fun _ => rfl) (fun _ => rfl) (fun _ => rfl) fun _ => le_rfl
  | succ n ih =>
    refine hcall (fun c arguments hc => ?_) id arguments
    exact (recording m).runBody (k := n) ih (Finset.mem_singleton.mpr hc)
      (Trimming.fits_of_groups rfl _) arguments

end Eval

end ObjectLang
