import ObjectLang.Proofs.Eval.Moments
import ObjectLang.Proofs.Eval.Recording
import ObjectLang.Proofs.Metering
import ObjectLang.Proofs.Program.Isolated

/-!
# Tasks of one evaluator

A host may use one evaluator for many tasks, one after another: programs, single statements, single
expressions. They share a frame and a meter. In an environment in which only host functions are
bound, everything that the evaluator does is charged to this meter, and as long as no task has run
out of gas, the meter tells what every further task does. -/

namespace ObjectLang

/-- What a host asks of an evaluator. -/
inductive Task where
  | program (p : Program)
  | stmt (s : Stmt)
  | expr (e : Expr)

namespace Task

/-- Performs a task in a context. -/
def perform (c : Context) : Task → EvalM Completion
  | .program p => return .normal (← p.run c)
  | .stmt s => s.run c
  | .expr e => return .normal (← e.eval c)

/-- Performs a task with a bound on the calls inside of each other. -/
def performFueled (n : Nat) (c : Context) : Task → EvalM Completion
  | .program p => return .normal (← p.runFueled n c)
  | .stmt s => Eval.stmt (Eval.call n) c s
  | .expr e => return .normal (← Eval.expr (Eval.call n) c e)

theorem perform_run (c : Context) (task : Task) (w : World) :
    task.perform c w = task.performFueled w.freeDepth c w := by
  cases task <;> rfl

theorem perform_eq (c : Context) (task : Task) :
    task.perform c = get >>= fun w => task.performFueled w.freeDepth c :=
  funext fun w => perform_run c task w

end Task

theorem Eval.Treewise.task {P : MeterId → Prop}
    {R : Option FrameId → ∀ {α : Type}, EvalM α → EvalM α → Prop}
    {Q : ∀ {α : Type}, EvalM α → EvalM α → Prop} (hR : Treewise {} P R Q) {n k : Nat}
    (hcall : ∀ id arguments, Q (call n id arguments) (call k id arguments)) {c : Context}
    (hc : P c.meter) (task : Task) :
    R (some c.frame) (task.performFueled n c) (task.performFueled k c) := by
  cases task with
  | program p =>
    have hp := hR.program hcall hc p (Trimming.fits_of_groups rfl _)
    rw [Program.trim, trimStmts_empty] at hp
    exact hR.bind hp fun v => hR.weaken _ (hR.pure _)
  | stmt s => exact hR.of_home (hR.sameStmt hcall hc s)
  | expr e => exact hR.bind (hR.weaken _ (hR.sameExpr hcall hc e)) fun v => hR.weaken _ (hR.pure _)

/-- The worlds in which an evaluator with the context `c` is found that starts in the world `start`:
it has performed some tasks, and none of them has run out of gas. -/
inductive Session (c : Context) (start : World) : World → Prop where
  | start : Session c start start
  | next {w : World} (task : Task) : Session c start w →
      (task.perform c w).Avoids Stop.IsGasExhausted → Session c start (task.perform c w).state

/-- What the meter of the context `c`, with the given limits, tells about a task that is performed
in the world `w`. -/
structure Task.Metered (task : Task) (c : Context) (limits : Limits) (w : World) : Prop where
  /-- Gas is never given back. -/
  gas_le : c.gasUsed w ≤ c.gasUsed (task.perform c w).state
  /-- A task that does not run out of gas stays within the limit. -/
  within : (task.perform c w).Avoids Stop.IsGasExhausted →
    c.gasUsed (task.perform c w).state ≤ limits.gas
  /-- A task runs out of gas if it goes one step over the limit. -/
  exhausted_iff : (∃ w', task.perform c w = .error (.error (.gasExhausted limits.gas)) w') ↔
    c.gasUsed (task.perform c w).state = limits.gas + 1
  /-- No task runs out of the gas of another limit. -/
  limit_eq : ∀ limit w', task.perform c w = .error (.error (.gasExhausted limit)) w' →
    limit = limits.gas
  /-- What is printed and logged has been paid for. -/
  recorded_le : (task.perform c w).state.recorded + c.gasUsed w ≤
    w.recorded + c.gasUsed (task.perform c w).state
  /-- At no moment are more calls active than the limit allows. -/
  moments : Eval.Throughout (World.WithinDepth c.meter limits.depth) (task.perform c) w
  /-- So a bound on calls inside of each other by this limit changes nothing. -/
  nested : task.perform c w = task.performFueled limits.depth c w
  /-- However a task ends, as many calls are active as before. -/
  depth_eq : ((task.perform c w).state.meter c.meter).depth = (w.meter c.meter).depth
  /-- The bound that makes evaluation a total function is not noticed. -/
  ends : (task.perform c w).Avoids (· = .outOfFuel)

/-! ## What is known of every task -/

namespace Task

open Eval

variable (task : Task) (n : Nat) (c : Context)

theorem accounted_performFueled : Accounted (task.performFueled n c) :=
  accounted.treewise.task (k := n) (accounted.call le_rfl) trivial task

theorem ne_outOfFuel_performFueled {w w' : World} (h : w.freeDepth ≤ n) :
    task.performFueled n c w ≠ .error .outOfFuel w' :=
  ((fueled n).treewise.task (k := n) (call_fueled n) trivial task).ne_outOfFuel w w' h

theorem contained_performFueled : Contained {c.meter} n (task.performFueled n c) :=
  (contained {c.meter} n).treewise.task (k := n) (contained_call _ n)
    (Finset.mem_singleton_self c.meter) task

theorem recording_performFueled : Recording c.meter 0 (task.performFueled n c) :=
  (recording c.meter).task (k := n) (recording_call n) (Finset.mem_singleton_self c.meter) task

/-- More fuel than enough changes nothing. -/
theorem performFueled_of_le {n k : Nat} (hn : n ≤ k) {w : World}
    (h : (task.performFueled n c w).Avoids (· = .outOfFuel)) :
    task.performFueled k c w = task.performFueled n c w :=
  extended.treewise.task (extended.call hn) trivial task w h

theorem moments_perform {depth : Nat} {w : World} (hw : w.WithinDepth c.meter depth) :
    Throughout (World.WithinDepth c.meter depth) (task.perform c) w := by
  have hR := withinDepth c.meter depth
  rw [perform_eq]
  exact .read (hR.treewise.task (k := w.freeDepth) (hR.call le_rfl) trivial task w hw)

end Task

/-! ## One task after another -/

/-- The world of an evaluator that may perform its next task. -/
structure World.Ready (m : MeterId) (limits : Limits) (w : World) : Prop where
  lt_size : m < w.meters.size
  /-- All functions are charged to the evaluator's meter. -/
  chargedIn : w.ChargedIn {m}
  limits_eq : (w.meter m).limits = limits
  gas_le : (w.meter m).gas ≤ limits.gas
  /-- No call is active. -/
  depth_eq : (w.meter m).depth = 0

namespace World.Ready

variable {limits : Limits} {c : Context} {w : World} (h : w.Ready c.meter limits) (task : Task)
include h

/-- A task stays within the limit of the meter, or fails at the step that does not. -/
theorem exhausted :
    (∀ e w', task.perform c w = .error e w' → e.IsGasExhausted →
      e = .error (.gasExhausted limits.gas) ∧ c.gasUsed w' = limits.gas + 1) ∧
    ((task.perform c w).Avoids Stop.IsGasExhausted →
      c.gasUsed (task.perform c w).state ≤ limits.gas) := by
  have haccounts := (task.accounted_performFueled w.freeDepth c).accounts w
  have hothers := (task.contained_performFueled w.freeDepth c).kept.others w h.chargedIn
  rw [← task.perform_run] at haccounts hothers
  generalize task.perform c w = r at haccounts hothers
  have hgas := h.gas_le
  have hlimits := h.limits_eq
  cases haccounts with
  | @ok a w' hwithin =>
    have hle := (hwithin c.meter).2
    rw [hlimits, Nat.max_eq_right hgas] at hle
    refine ⟨fun _ _ heq _ => ?_, fun _ => hle⟩
    cases heq
  | @error e w' he hwithin =>
    have hle := (hwithin c.meter).2
    rw [hlimits, Nat.max_eq_right hgas] at hle
    refine ⟨fun _ _ heq hexhausted => ?_, fun _ => hle⟩
    cases heq
    exact absurd hexhausted he
  | @exhausted m w' hexhausts =>
    -- no other meter than that of the evaluator has been charged
    have hm : m = c.meter := by
      by_contra hne
      have hsame := hothers m (by simpa using hne)
      have hlt := hexhausts.lt.1
      rw [EStateM.Result.state_error] at hsame
      rw [hsame] at hlt
      exact Nat.lt_irrefl _ hlt
    subst hm
    have hpast := hexhausts.past
    rw [hlimits, Nat.max_eq_right hgas] at hpast
    refine ⟨fun _ _ heq _ => ?_, fun havoids => absurd trivial (havoids _ _ rfl)⟩
    cases heq
    rw [hlimits]
    exact ⟨rfl, hpast⟩

/-- A bound on calls inside of each other by the limit of the meter is not noticed. -/
theorem nested : task.perform c w = task.performFueled limits.depth c w := by
  have hfree : w.freeDepthIn {c.meter} ≤ limits.depth := by
    rw [World.freeDepthIn, Finset.sum_singleton, Meter.freeDepth, h.limits_eq]
    exact Nat.sub_le _ _
  have hfuel : (task.performFueled w.freeDepth c w).Avoids (· = .outOfFuel) := by
    rintro _ w' hrun rfl
    exact task.ne_outOfFuel_performFueled w.freeDepth c le_rfl hrun
  have hfuel' : (task.performFueled limits.depth c w).Avoids (· = .outOfFuel) := by
    rintro _ w' hrun rfl
    exact (task.contained_performFueled limits.depth c).ne_outOfFuel w w' h.chargedIn hfree hrun
  -- both runs are the same as one that has fuel for either
  have hmore := task.performFueled_of_le c (le_max_left w.freeDepth limits.depth) hfuel
  have hmore' := task.performFueled_of_le c (le_max_right w.freeDepth limits.depth) hfuel'
  rw [task.perform_run, ← hmore, ← hmore']

theorem metered : task.Metered c limits w := by
  obtain ⟨hexhausted, hwithin⟩ := h.exhausted task
  have haccounted := task.accounted_performFueled w.freeDepth c
  have hgas := (haccounted.accounts w).gas_le c.meter
  have hbalanced := haccounted.balanced w
  have hrecorded := (task.recording_performFueled w.freeDepth c).recorded_le w h.chargedIn h.lt_size
  rw [← task.perform_run] at hgas hbalanced hrecorded
  constructor
  · exact hgas.1
  · exact hwithin
  · constructor
    · rintro ⟨w', heq⟩
      rw [heq]
      exact (hexhausted _ w' heq trivial).2
    · intro hpast
      by_contra hnone
      have havoids : (task.perform c w).Avoids Stop.IsGasExhausted := by
        intro e w' heq hexhausts
        obtain ⟨rfl, _⟩ := hexhausted e w' heq hexhausts
        exact hnone ⟨w', heq⟩
      have hle := hwithin havoids
      omega
  · intro limit w' heq
    obtain ⟨hlimit, _⟩ := hexhausted _ w' heq trivial
    cases hlimit
    rfl
  · exact hrecorded
  · exact task.moments_perform c ⟨congrArg Limits.depth h.limits_eq, h.depth_eq ▸ Nat.zero_le _⟩
  · exact h.nested task
  · exact hbalanced.depth_eq c.meter
  · rintro _ w' heq rfl
    rw [task.perform_run] at heq
    exact task.ne_outOfFuel_performFueled w.freeDepth c le_rfl heq

/-- A task that has not run out of gas leaves the evaluator ready for the next one. -/
theorem next (havoids : (task.perform c w).Avoids Stop.IsGasExhausted) :
    (task.perform c w).state.Ready c.meter limits := by
  have hbalanced := (task.accounted_performFueled w.freeDepth c).balanced w
  have hcharged := (task.contained_performFueled w.freeDepth c).kept.chargedIn w h.chargedIn
  rw [← task.perform_run] at hbalanced hcharged
  constructor
  · rw [hbalanced.size_eq]
    exact h.lt_size
  · exact hcharged
  · rw [hbalanced.limits_eq]
    exact h.limits_eq
  · exact (h.metered task).within havoids
  · rw [hbalanced.depth_eq]
    exact h.depth_eq

end World.Ready

/-- An evaluator starts with a meter that nothing has been charged to. -/
theorem World.ready_withMeter {w : World} (hw : w.owners = ∅) (limits : Limits) :
    (w.withMeter limits).Ready w.meters.size limits := by
  have hmeter := w.meter_withMeter limits
  have hcharged := w.chargedIn_withMeter limits
  rw [hw] at hcharged
  constructor
  · rw [size_withMeter]
    exact Nat.lt_succ_self _
  · exact hcharged
  · rw [hmeter]
  · rw [hmeter]
    exact Nat.zero_le _
  · rw [hmeter]

namespace Session

variable {w start : World} {frame : FrameId} {limits : Limits} {c : Context}

theorem ready {w' : World} (hw : w.owners = ∅) (hnew : Context.new frame limits w = .ok c start)
    (h : Session c start w') : w'.Ready c.meter limits := by
  induction h with
  | start =>
    cases hnew
    exact World.ready_withMeter hw limits
  | next task _ havoids ih => exact ih.next task havoids

/-- The meter of an evaluator that starts where only host functions are bound tells of each of its
tasks how it ends, what it records and how calls are nested, until a task runs out of gas. -/
theorem task_metered {w' : World} (hw : w.owners = ∅)
    (hnew : Context.new frame limits w = .ok c start) (h : Session c start w') (task : Task) :
    task.Metered c limits w' :=
  (h.ready hw hnew).metered task

/-- A program that defines a function which prints a text and calls itself. -/
def echoing : Program :=
  ⟨[.define ⟨"f", [], none,
    [.expression (.call "print" [.literal (.string "a")]), .expression (.call "f" [])]⟩]⟩

/-- Under a limit of two calls inside of each other a call of the function fails after it has
printed two texts. The evaluator is then used again, and runs out of gas after one more text. -/
theorem task_metered_echoing : ∃ c start w',
    isolatedWorld.owners = ∅ ∧ Context.new 1 ⟨20, 2⟩ isolatedWorld = .ok c start ∧
    Session c start w' ∧ w'.recorded = 2 ∧ c.gasUsed w' = 12 ∧
    (Task.expr (.call "f" [])).Metered c ⟨20, 2⟩ w' ∧
    ((Task.expr (.call "f" [])).perform c w').state.recorded = 3 := by
  let c : Context := ⟨1, 0⟩
  let start := isolatedWorld.withMeter ⟨20, 2⟩
  have hw : isolatedWorld.owners = ∅ := by decide
  have hdefined : Session c start _ := Session.start.next (.program echoing) (by decide +kernel)
  have hcalled : Session c start _ := hdefined.next (.expr (.call "f" [])) (by decide +kernel)
  refine ⟨c, start, _, hw, rfl, hcalled, ?_, ?_, task_metered hw rfl hcalled _, ?_⟩
  · decide +kernel
  · decide +kernel
  · decide +kernel

end Session

end ObjectLang
