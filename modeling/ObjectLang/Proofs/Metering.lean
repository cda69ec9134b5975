import ObjectLang.Proofs.Eval.Charging

/-!
# Metering of programs that share a scope

Functions keep the meter of the program that defined them. A program that calls a function of an
older one is therefore not charged for the body of that function, and fails if the older program's
meter is used up. So its own limits bound neither the steps that are taken while it runs nor the
calls that are nested. What does hold is an account for every program: its statements and the bodies
of its functions, whichever programs run them, take no more steps and nest no more calls than its
limits allow. -/

namespace ObjectLang

/-- What a program with a meter of its own does to the accounts of a world `w`, where `r` is how its
run ends. -/
structure Program.Charges (p : Program) (f : FrameId) (limits : Limits) (w : World)
    (r : EStateM.Result Stop World Value) : Prop where
  /-- The program's own meter has its limits, and no call that is charged to it is active. -/
  own : (r.state.meter w.meters.size).limits = limits ∧ (r.state.meter w.meters.size).depth = 0
  /-- It counts at most one step more than its limit, and then the run fails at that step. -/
  within : (r.state.meter w.meters.size).gas ≤ limits.gas ∨
    (r.state.meter w.meters.size).gas = limits.gas + 1 ∧
      ∃ w', r = .error (.error (.gasExhausted limits.gas)) w'
  /-- New functions are charged to the program's own meter, or to that of a function that made
  them. -/
  owners : r.state.owners ⊆ insert w.meters.size w.owners
  /-- The older meters keep their limits. -/
  older : ∀ m < w.meters.size, (r.state.meter m).limits = (w.meter m).limits ∧
    (r.state.meter m).depth = (w.meter m).depth
  /-- They are charged for functions of older programs, within their own limits. -/
  charged : ∀ m < w.meters.size, (r.state.meter m).gas = (w.meter m).gas ∨
    m ∈ w.owners ∧ (w.meter m).gas < (r.state.meter m).gas ∧
      (r.state.meter m).gas ≤ max (w.meter m).gas (w.meter m).limits.gas + 1
  /-- A run that is out of gas went over the limit of its own meter or of one of theirs. -/
  exhausted : ∀ limit w', r = .error (.error (.gasExhausted limit)) w' →
    ∃ m, (m = w.meters.size ∨ m ∈ w.owners) ∧ (w'.meter m).limits.gas = limit ∧
      limit < (w'.meter m).gas ∧ ((w.withMeter limits).meter m).gas < (w'.meter m).gas
  /-- No more calls are nested than the own limit and the older programs' limits allow. -/
  nested : r = p.runFueled (limits.depth + w.freeDepthIn w.owners) ⟨f, w.meters.size⟩
    (w.withMeter limits)

namespace World

variable (w : World) (limits : Limits)

theorem size_withMeter : (w.withMeter limits).meters.size = w.meters.size + 1 := by
  simp [withMeter]

theorem meter_withMeter_of_ne {m : MeterId} (hm : m ≠ w.meters.size) :
    (w.withMeter limits).meter m = w.meter m := by
  simp only [meter, withMeter, Array.getD_eq_getD_getElem?, Array.getElem?_push, if_neg hm]

/-- The functions of the world and those that a program makes are charged to these meters. -/
theorem chargedIn_withMeter :
    (w.withMeter limits).ChargedIn (insert w.meters.size w.owners) := by
  have hw : w.ChargedIn (insert w.meters.size w.owners) :=
    chargedIn_iff.mpr (Finset.subset_insert _ _)
  exact hw.of_functions_eq rfl

theorem freeDepthIn_withMeter :
    (w.withMeter limits).freeDepthIn (insert w.meters.size w.owners) ≤
      limits.depth + w.freeDepthIn w.owners := by
  have hown : ((w.withMeter limits).meter w.meters.size).freeDepth = limits.depth := by
    rw [meter_withMeter]
    rfl
  have hothers : ∑ m ∈ w.owners.erase w.meters.size, ((w.withMeter limits).meter m).freeDepth =
      ∑ m ∈ w.owners.erase w.meters.size, (w.meter m).freeDepth := by
    refine Finset.sum_congr rfl fun m hm => ?_
    rw [meter_withMeter_of_ne w limits (Finset.ne_of_mem_erase hm)]
  have hle : ∑ m ∈ w.owners.erase w.meters.size, (w.meter m).freeDepth ≤
      ∑ m ∈ w.owners, (w.meter m).freeDepth :=
    Finset.sum_le_sum_of_subset (Finset.erase_subset _ _)
  rw [freeDepthIn, freeDepthIn, ← Finset.add_sum_erase _ _ (Finset.mem_insert_self _ _),
    Finset.erase_insert_eq_erase, hown, hothers]
  exact Nat.add_le_add_left hle _

end World

namespace Program

variable (p : Program) (f : FrameId) (limits : Limits) (w : World)

theorem accounted_runFueled (n : Nat) (c : Context) : Eval.Accounted (p.runFueled n c) :=
  Eval.accounted.program (k := n) (Eval.accounted.call le_rfl) trivial p

theorem contained_runFueled {M : Finset MeterId} (n : Nat) {c : Context} (hc : c.meter ∈ M) :
    Eval.Contained M n (p.runFueled n c) :=
  (Eval.contained M n).program (k := n) (Eval.contained_call M n) hc p

/-- More fuel than enough changes nothing. -/
theorem runFueled_of_le {n k : Nat} (hn : n ≤ k) {c : Context} {w : World}
    (h : (p.runFueled n c w).Avoids (· = .outOfFuel)) : p.runFueled k c w = p.runFueled n c w :=
  Eval.extended.program (Eval.extended.call hn) trivial p w h

/-- A program runs as if no other meters than its own and those of the world's functions allowed
calls. -/
theorem runWith_nested : p.runWith limits f w =
    p.runFueled (limits.depth + w.freeDepthIn w.owners) ⟨f, w.meters.size⟩
      (w.withMeter limits) := by
  have hfuel := p.runWith_avoids_outOfFuel f limits w
  have hfuel' : (p.runFueled (limits.depth + w.freeDepthIn w.owners) ⟨f, w.meters.size⟩
      (w.withMeter limits)).Avoids (· = .outOfFuel) := by
    rintro e w' h rfl
    have hown : w.meters.size ∈ insert w.meters.size w.owners := Finset.mem_insert_self _ _
    exact (p.contained_runFueled _ hown).ne_outOfFuel _ w' (w.chargedIn_withMeter limits)
      (w.freeDepthIn_withMeter limits) h
  rw [runWith_eq] at hfuel ⊢
  -- both runs are the same as one that has fuel for either
  have hmore := p.runFueled_of_le (le_max_left _ (limits.depth + w.freeDepthIn w.owners)) hfuel
  have hmore' := p.runFueled_of_le (le_max_right (w.freeDepth + limits.depth) _) hfuel'
  exact hmore.symm.trans hmore'

/-- Every program is charged to its own meter, and to those of the functions of older programs that
it calls. -/
theorem runWith_charges : p.Charges f limits w (p.runWith limits f w) := by
  have hown : w.meters.size ∈ insert w.meters.size w.owners := Finset.mem_insert_self _ _
  have haccounted := p.accounted_runFueled (w.freeDepth + limits.depth) ⟨f, w.meters.size⟩
  have haccounts := haccounted.accounts (w.withMeter limits)
  have hs := haccounted.balanced (w.withMeter limits)
  have hkept :=
    (p.contained_runFueled (w.freeDepth + limits.depth) (c := ⟨f, w.meters.size⟩) hown).kept
  have howners := hkept.chargedIn _ (w.chargedIn_withMeter limits)
  have hothers := hkept.others _ (w.chargedIn_withMeter limits)
  have hnested := p.runWith_nested f limits w
  rw [← runWith_eq] at haccounts hs howners hothers
  generalize p.runWith limits f w = r at *
  have hlimits := hs.limits_eq
  have hdepth := hs.depth_eq
  have holder (m : MeterId) (hm : m < w.meters.size) : (w.withMeter limits).meter m = w.meter m :=
    w.meter_withMeter_of_ne limits hm.ne
  constructor
  · rw [hlimits, hdepth, w.meter_withMeter limits]
    exact ⟨rfl, rfl⟩
  · have hmax {n : Nat} (hn : n ≤ max ((w.withMeter limits).meter w.meters.size).gas
        ((w.withMeter limits).meter w.meters.size).limits.gas) : n ≤ limits.gas := by
      rwa [w.meter_withMeter limits, Nat.zero_max] at hn
    cases haccounts with
    | ok h => exact .inl (hmax (h w.meters.size).2)
    | error _ h => exact .inl (hmax (h w.meters.size).2)
    | @exhausted m w' h =>
      by_cases hm : m = w.meters.size
      · subst hm
        have hpast := h.past
        rw [w.meter_withMeter limits, Nat.zero_max] at hpast
        rw [w.meter_withMeter limits]
        exact .inr ⟨hpast, w', rfl⟩
      · exact .inl (hmax (h.others _ (Ne.symm hm)).2)
  · exact World.chargedIn_iff.mp howners
  · intro m hm
    rw [hlimits, hdepth, holder m hm]
    exact ⟨rfl, rfl⟩
  · intro m hm
    by_cases hmem : m ∈ w.owners
    · have hle : ((w.withMeter limits).meter m).gas ≤ (r.state.meter m).gas ∧
          (r.state.meter m).gas ≤ max ((w.withMeter limits).meter m).gas
            ((w.withMeter limits).meter m).limits.gas + 1 := haccounts.gas_le m
      rw [holder m hm] at hle
      rcases hle.1.eq_or_lt with heq | hlt
      · exact .inl heq.symm
      · exact .inr ⟨hmem, hlt, hle.2⟩
    · have hne : m ∉ insert w.meters.size w.owners := by simp [hm.ne, hmem]
      rw [hothers m hne, holder m hm]
      exact .inl rfl
  · intro limit w' heq
    subst heq
    cases haccounts with
    | error he _ => exact absurd trivial he
    | @exhausted m _ h =>
      obtain ⟨hcharged, hpast⟩ := h.lt
      have hmem : m ∈ insert w.meters.size w.owners := by
        by_contra hne
        have hsame := hothers m hne
        rw [EStateM.Result.state_error] at hsame
        rw [hsame] at hcharged
        exact Nat.lt_irrefl _ hcharged
      exact ⟨m, Finset.mem_insert.mp hmem, congrArg Limits.gas (hlimits m), hpast, hcharged⟩
  · exact hnested

/-- A program that finds no functions of older programs is metered by its own limits alone. -/
theorem Charges.alone {p : Program} {f : FrameId} {limits : Limits} {w : World}
    {r : EStateM.Result Stop World Value} (h : p.Charges f limits w r) (hw : w.owners = ∅) :
    (∀ m < w.meters.size, (r.state.meter m).gas = (w.meter m).gas) ∧
    (∀ limit w', r = .error (.error (.gasExhausted limit)) w' →
      limit = limits.gas ∧ (r.state.meter w.meters.size).gas = limits.gas + 1) ∧
    r = p.runFueled limits.depth ⟨f, w.meters.size⟩ (w.withMeter limits) := by
  refine ⟨?_, ?_, ?_⟩
  · intro m hm
    rcases h.charged m hm with heq | ⟨hmem, -⟩
    · exact heq
    · rw [hw] at hmem
      exact absurd hmem (Finset.notMem_empty m)
  · intro limit w' heq
    obtain ⟨m, rfl | hmem, hlimit, hpast, -⟩ := h.exhausted limit w' heq
    · have hown := h.own.1
      have hwithin := h.within
      rw [heq, EStateM.Result.state_error] at hown hwithin ⊢
      rw [hown] at hlimit
      refine ⟨hlimit.symm, ?_⟩
      rcases hwithin with hle | ⟨hone, -⟩
      · omega
      · exact hone
    · rw [hw] at hmem
      exact absurd hmem (Finset.notMem_empty m)
  · have hnested := h.nested
    rw [hw, World.freeDepthIn, Finset.sum_empty] at hnested
    exact hnested

end Program

/-! ## Programs one after another -/

/-- The world after programs were run one after another in a frame, each with a meter of its own. -/
def World.afterAll (f : FrameId) (w : World) : List (Limits × Program) → World
  | [] => w
  | (limits, p) :: rest => World.afterAll f (p.runWith limits f w).state rest

namespace World

variable (f : FrameId) (w : World)

theorem size_runWith (p : Program) (limits : Limits) :
    (p.runWith limits f w).state.meters.size = w.meters.size + 1 := by
  have hs := (p.accounted_runFueled (w.freeDepth + limits.depth) ⟨f, w.meters.size⟩).balanced
  rw [Program.runWith_eq, (hs _).size_eq, size_withMeter]

/-- Functions belong to the programs that ran, unless they were there before. -/
theorem owners_afterAll (programs : List (Limits × Program)) :
    ∀ m ∈ (w.afterAll f programs).owners, m ∈ w.owners ∨
      w.meters.size ≤ m ∧ m < w.meters.size + programs.length := by
  induction programs generalizing w with
  | nil => exact fun m hm => .inl hm
  | cons program rest ih =>
    obtain ⟨limits, p⟩ := program
    intro m hm
    have howners := (p.runWith_charges f limits w).owners
    rcases ih (p.runWith limits f w).state m hm with hmem | hlater
    · rcases Finset.mem_insert.mp (howners hmem) with rfl | hmem
      · exact .inr ⟨le_rfl, by simp⟩
      · exact .inl hmem
    · rw [size_runWith, Nat.add_right_comm] at hlater
      exact .inr ⟨(Nat.le_succ _).trans hlater.1, hlater.2⟩

/-- Later programs charge an older meter within its limit, apart from one step for each of them. -/
theorem older_afterAll (programs : List (Limits × Program)) {m : MeterId}
    (hm : m < w.meters.size) :
    ((w.afterAll f programs).meter m).limits = (w.meter m).limits ∧
      ((w.afterAll f programs).meter m).gas ≤
        max (w.meter m).gas (w.meter m).limits.gas + programs.length := by
  induction programs generalizing w with
  | nil => exact ⟨rfl, le_max_left _ _⟩
  | cons program rest ih =>
    obtain ⟨limits, p⟩ := program
    have hcharges := p.runWith_charges f limits w
    have hlimits := (hcharges.older m hm).1
    have hgas := hcharges.charged m hm
    have hm' : m < (p.runWith limits f w).state.meters.size := by
      rw [size_runWith]
      exact Nat.lt_succ_of_lt hm
    obtain ⟨hlimits', hgas'⟩ := ih (p.runWith limits f w).state hm'
    rw [hlimits] at hlimits' hgas'
    refine ⟨hlimits', ?_⟩
    rw [afterAll, List.length_cons]
    omega

/-- The steps that were charged to a program when others have run after it. -/
theorem charged_afterAll (programs : List (Limits × Program)) {i : Nat} {limits : Limits}
    {p : Program} (hi : programs[i]? = some (limits, p)) :
    ((w.afterAll f programs).meter (w.meters.size + i)).limits = limits ∧
      ((w.afterAll f programs).meter (w.meters.size + i)).gas ≤
        limits.gas + (programs.length - i) := by
  induction programs generalizing w i with
  | nil => simp at hi
  | cons program rest ih =>
    obtain ⟨limits₁, p₁⟩ := program
    have hsize := w.size_runWith f p₁ limits₁
    have hm : w.meters.size < (p₁.runWith limits₁ f w).state.meters.size :=
      Nat.lt_of_lt_of_eq (Nat.lt_succ_self _) hsize.symm
    cases i with
    | zero =>
      rw [List.getElem?_cons_zero, Option.some.injEq, Prod.mk.injEq] at hi
      obtain ⟨rfl, rfl⟩ := hi
      have hcharges := p₁.runWith_charges f limits₁ w
      have hlimits := hcharges.own.1
      have hgas := hcharges.within
      obtain ⟨hlimits', hgas'⟩ := older_afterAll f (p₁.runWith limits₁ f w).state rest hm
      rw [hlimits] at hlimits' hgas'
      refine ⟨hlimits', ?_⟩
      rw [afterAll, List.length_cons]
      simp only [Nat.add_zero, Nat.sub_zero]
      omega
    | succ i =>
      rw [List.getElem?_cons_succ] at hi
      have hrest := ih (p₁.runWith limits₁ f w).state hi
      rw [hsize] at hrest
      rw [afterAll, List.length_cons, Nat.succ_sub_succ, ← Nat.add_assoc, Nat.add_right_comm]
      exact hrest

end World

namespace Program

/-- Programs that share a scope are metered by the programs that define the functions. After any
programs, a function is charged to the one that defined it, unless it was there before all of them.
The code of a program, run by itself or by later ones, is charged as many steps as its limit allows,
and at most one more for each program that has run since. The next program adds to these accounts as
`Program.Charges` says. -/
theorem metering (f : FrameId) (w : World) (before : List (Limits × Program)) (limits : Limits)
    (p : Program) :
    (∀ m ∈ (w.afterAll f before).owners, m ∈ w.owners ∨
      w.meters.size ≤ m ∧ m < w.meters.size + before.length) ∧
    (∀ i limits' p', before[i]? = some (limits', p') →
      ((w.afterAll f before).meter (w.meters.size + i)).limits = limits' ∧
        ((w.afterAll f before).meter (w.meters.size + i)).gas ≤
          limits'.gas + (before.length - i)) ∧
    p.Charges f limits (w.afterAll f before) (p.runWith limits f (w.afterAll f before)) :=
  ⟨w.owners_afterAll f before, fun _ _ _ hi => w.charged_afterAll f before hi,
    p.runWith_charges f limits _⟩

/-- A program that defines a function of four statements. -/
def defining : Program :=
  ⟨[.define ⟨"f", [], none, List.replicate 4 (.expression (.literal (.integer 1)))⟩]⟩

/-- A program that calls the function. -/
def calling : Program := ⟨[.expression (.call "f" [])]⟩

/-- The world after the function was defined by a program with the given limits. -/
def defined (limits : Limits) : World :=
  (Eval.environment {}).state.afterAll 0 [(limits, defining)]

/-- A program is not metered by its own limits. One that may take three steps and nest no call takes
ten and nests one, and one with the usual limits runs out of the gas of another program. -/
theorem not_metered_by_own_limits :
    ((calling.runWith ⟨3, 0⟩ 0 (defined ⟨10, 1⟩)).isOk = true ∧
      ((calling.runWith ⟨3, 0⟩ 0 (defined ⟨10, 1⟩)).state.meter 1).gas = 2 ∧
      ((defined ⟨10, 1⟩).meter 0).gas = 1 ∧
      ((calling.runWith ⟨3, 0⟩ 0 (defined ⟨10, 1⟩)).state.meter 0).gas = 9) ∧
    ¬ (calling.runWith {} 0 (defined ⟨3, 1⟩)).Avoids (· = .error (.gasExhausted 3)) ∧
      ((calling.runWith {} 0 (defined ⟨3, 1⟩)).state.meter 1).gas = 2 := by
  decide +kernel

/-- The function of `defining` is charged to that program. When it is called its meter has counted
one step, and counts eight more. -/
theorem metering_calling :
    [(({ gas := 10, depth := 1 } : Limits), defining)][0]? = some (⟨10, 1⟩, defining) ∧
    ((defined ⟨10, 1⟩).meter 0).gas ≤ 11 ∧
    calling.Charges 0 ⟨3, 0⟩ (defined ⟨10, 1⟩) (calling.runWith ⟨3, 0⟩ 0 (defined ⟨10, 1⟩)) := by
  obtain ⟨-, hcharged, hcharges⟩ := metering 0 (Eval.environment {}).state [(⟨10, 1⟩, defining)]
    ⟨3, 0⟩ calling
  exact ⟨rfl, (hcharged 0 ⟨10, 1⟩ defining rfl).2, hcharges⟩

end Program

end ObjectLang
